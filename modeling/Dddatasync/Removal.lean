import Dddatasync.Cleanup
import Dddatasync.Library.LinkTree

/-!
What `remove` takes away, against what `files` lists: `src/store.rs`, on trees with every kind
of entry.

* `Linked.files`, `Linked.remove`: the two operations where links, pipes and sockets may lie in
  the store; `files_ofTree`, `remove_ofTree`: without these they are `files` and `remove`.
* `Lists`: a name in the listing, which shows names that are not UTF-8 with replacement marks.
* `RemovesListed`: `remove` succeeds on the listed names only, and changes nothing else;
  `removesListed_iff`: exactly when.
-/

namespace Dddatasync

open Fs OsString LinkFs

variable {C : Type*} {root : AbsPath} {t : LinkTree C} {io : Faults C} {name : String}

namespace Linked

/-- What the loop of `files` makes of one directory entry. -/
def fileEntry [HasLen C] (n : OsString) (x : Inode C) : Option FileEntry :=
  if startsWithDot (toStringLossy n) then none
  else
    match x with
    | .file c => some ⟨toStringLossy n, HasLen.len c⟩
    | _ => none

/-- `DddSync::files`. -/
def files [HasLen C] (root : AbsPath) (io : Faults C) (t : LinkTree C) :
    Except IoError (List FileEntry) :=
  if io.readDir then .error .other
  else
    match LinkFs.readDir t ⟨root, []⟩ with
    | .error e => .error e
    | .ok es => .ok (es.filterMap fun e => fileEntry e.1 e.2)

/-- `DddSync::remove`; a path that cannot be looked up does not exist. -/
def remove (root : AbsPath) (name : String) (io : Faults C) (t : LinkTree C) :
    Except StoreError Unit × LinkTree C :=
  if !io.stat && LinkFs.pathExists t ⟨root, ofStr name⟩ then
    if io.removeFile name then (.error (.io .other), t)
    else
      match unlink t ⟨root, ofStr name⟩ with
      | .error e => (.error (.io e), t)
      | .ok t' => (.ok (), t')
  else (.error (.notInStore name), t)

end Linked

/-! ### Stores without links -/

lemma files_ofTree [HasLen C] (root : AbsPath) (io : Faults C) (fs : FileSystem C) :
    Linked.files root io (ofTree fs) = files root io fs := by
  have hentry : ∀ e : OsString × Node C, Linked.fileEntry e.1 (ofNode e.2) = fileEntry e.1 e.2 :=
    fun e => by rcases e with ⟨n, x⟩; cases x <;> rfl
  simp only [Linked.files, files, LinkFs.readDir, Fs.readDir, metadata, resolve_ofTree,
    resolve_nil, inode_ofTree]
  cases node fs root with
  | none => rfl
  | some x =>
      cases x with
      | file c => rfl
      | dir =>
          have hdir : (some (Node.dir : Node C)).map ofNode = some .dir := rfl
          simp only [hdir, children_ofTree, List.filterMap_map, Function.comp_def, hentry]

/-- Without links and special files `remove` is the `remove` of a tree of files. -/
lemma remove_ofTree (root : AbsPath) (name : String) (hio : io.stat = false)
    (fs : FileSystem C) :
    (Linked.remove root name io (ofTree fs)).1 = (remove root name io fs).1
      ∧ ∀ p, (Linked.remove root name io (ofTree fs)).2.lookup p
          = ((remove root name io fs).2.lookup p).map ofNode := by
  simp only [Linked.remove, remove, hio, Bool.not_false, Bool.true_and, pathExists_ofTree]
  split_ifs with hexists hfault
  · exact ⟨rfl, lookup_ofTree fs⟩
  · rcases unlink_ofTree fs ⟨root, ofStr name⟩ with ⟨e, h, h'⟩ | ⟨q, h, h'⟩
    · simp only [h, h', lookup_ofTree, implies_true, and_self]
    · simp only [h, h', lookup_erase_ofTree, implies_true, and_self]
  · exact ⟨rfl, lookup_ofTree fs⟩

/-! ### Statements -/

/-- The root is a directory, and its entries have ordinary names. -/
structure LinkedStoreDir (root : AbsPath) (t : LinkTree C) : Prop where
  dir : inode t root = some .dir
  plain : ∀ n x, LinkFs.entry t root n = some x → Plain n

/-- `files` lists the name. -/
def Lists [HasLen C] (root : AbsPath) (t : LinkTree C) (name : String) : Prop :=
  ∃ l, Linked.files root {} t = .ok l ∧ ∃ e ∈ l, e.name = name

/-- `remove` succeeds exactly on a listed name, takes that entry of the store away and
nothing else; when it fails the whole tree is as before. -/
def RemovesListed [HasLen C] (root : AbsPath) (io : Faults C) (t : LinkTree C)
    (name : String) : Prop :=
  match Linked.remove root name io t with
  | (.ok (), t') =>
      Lists root t name ∧ (∃ c, LinkFs.entry t root (ofStr name) = some (.file c))
        ∧ ∀ p, t'.lookup p = if p = root ++ [ofStr name] then none else t.lookup p
  | (.error _, t') => ¬ Lists root t name ∧ ∀ p, t'.lookup p = t.lookup p

/-- Neither the lookup nor the removal of the path fails for a reason outside the tree. -/
def CanRemove (io : Faults C) (name : String) : Prop :=
  io.stat = false ∧ io.removeFile name = false

/-! ### The listing -/

lemma lists_iff [HasLen C] (hdir : inode t root = some .dir) : Lists root t name ↔
    ∃ n c, LinkFs.entry t root n = some (.file c) ∧ Visible n ∧ toStringLossy n = name := by
  have hfiles : Linked.files root {} t
      = .ok ((LinkFs.children t root).filterMap fun e => Linked.fileEntry e.1 e.2) := by
    simp [Linked.files, LinkFs.readDir_root hdir]
  rw [Lists, hfiles]
  constructor
  · rintro ⟨l, hl, e, he, rfl⟩
    rw [← Except.ok.inj hl] at he
    obtain ⟨⟨n, x⟩, hmem, hx⟩ := List.mem_filterMap.mp he
    simp only [Linked.fileEntry] at hx
    split_ifs at hx with hdot
    cases x with
    | file c =>
        refine ⟨n, c, LinkFs.mem_children.mp hmem, ?_, ?_⟩
        · by_contra hv
          exact hdot (startsWithDot_toStringLossy.mpr hv)
        · rw [← Option.some.inj hx]
    | _ => cases hx
  · rintro ⟨n, c, hent, hv, rfl⟩
    refine ⟨_, rfl, ⟨toStringLossy n, HasLen.len c⟩,
      List.mem_filterMap.mpr ⟨(n, .file c), LinkFs.mem_children.mpr hent, ?_⟩, rfl⟩
    rw [Linked.fileEntry, if_neg]
    rw [startsWithDot_toStringLossy]
    exact not_not.mpr hv

/-- A listed name begins with no dot. -/
lemma visible_of_lists [HasLen C] (hdir : inode t root = some .dir) (h : Lists root t name) :
    Visible (ofStr name) := by
  obtain ⟨n, c, -, hv, rfl⟩ := (lists_iff hdir).mp h
  rw [visible_ofStr, ← Bool.not_eq_true]
  exact fun hdot => startsWithDot_toStringLossy.mp hdot hv

/-! ### The removal -/

/-- `remove` takes away what its argument leads to, wherever that is. -/
lemma remove_taken {q : AbsPath} {x : Inode C} (hio : CanRemove io name)
    (hexists : LinkFs.pathExists t ⟨root, ofStr name⟩ = true)
    (h : Unlinks t ⟨root, ofStr name⟩ q x) :
    Linked.remove root name io t = (.ok (), t.erase q) := by
  have hunlink := unlink_eq_ok.mpr ⟨q, x, h, rfl⟩
  simp only [Linked.remove, hio.1, hio.2, hexists, hunlink]
  rfl

/-- Otherwise it fails and changes nothing. -/
lemma remove_other (h : ¬ (CanRemove io name ∧ LinkFs.pathExists t ⟨root, ofStr name⟩ = true
    ∧ ∃ q x, Unlinks t ⟨root, ofStr name⟩ q x)) :
    ∃ e, Linked.remove root name io t = (.error e, t) := by
  rw [Linked.remove]
  split_ifs with hexists hfault
  · exact ⟨_, rfl⟩
  · rw [Bool.and_eq_true, Bool.not_eq_true'] at hexists
    cases hu : unlink t ⟨root, ofStr name⟩ with
    | error e => exact ⟨_, rfl⟩
    | ok t' =>
        obtain ⟨q, x, hx, -⟩ := unlink_eq_ok.mp hu
        exact absurd ⟨⟨hexists.1, by simpa using hfault⟩, hexists.2, q, x, hx⟩ h
  · exact ⟨_, rfl⟩

/-- A regular file of the store is what its own name leads to. -/
lemma unlinks_file {n : OsString} {c : C} (hplain : Plain n)
    (hent : LinkFs.entry t root n = some (.file c)) :
    LinkFs.pathExists t ⟨root, n⟩ = true ∧ Unlinks t ⟨root, n⟩ (root ++ [n]) (.file c) := by
  have hlink : ∀ follow : Bool, ∀ target,
      LinkFs.entry t root n = some (.link target) → follow = false := by
    intro _ target h
    rw [hent] at h
    cases h
  refine ⟨?_, LinkFs.resolve_plain t false root hplain (hlink _), by rw [inode_snoc, hent],
    by simp⟩
  simp only [LinkFs.pathExists, stat, LinkFs.resolve_plain t true root hplain (hlink _),
    inode_snoc, hent]
  rfl

/-- What an ordinary name leads to is the entry of that name. -/
lemma unlinks_plain {n : OsString} {q : AbsPath} {x : Inode C} (hplain : Plain n)
    (h : Unlinks t ⟨root, n⟩ q x) : q = root ++ [n] ∧ LinkFs.entry t root n = some x := by
  have hres := LinkFs.resolve_plain t false root hplain fun _ _ => rfl
  obtain rfl : q = root ++ [n] := Except.ok.inj (h.resolved.symm.trans hres)
  exact ⟨rfl, by rw [← inode_snoc, h.taken]⟩

/-- **Removal and listing.**  In a store directory `remove` goes by the listing if and only if
the string, where there is something it can take away, is one ordinary visible name of a
regular file, and, where the listing shows it, there is a file of exactly that name and it can
be removed. -/
theorem removesListed_iff [HasLen C] (hstore : LinkedStoreDir root t) (io : Faults C)
    (name : String) :
    RemovesListed root io t name ↔
      (CanRemove io name → LinkFs.pathExists t ⟨root, ofStr name⟩ = true →
          ∀ q x, Unlinks t ⟨root, ofStr name⟩ q x →
            Plain (ofStr name) ∧ Visible (ofStr name) ∧ ∃ c, x = .file c)
        ∧ ∀ n c, LinkFs.entry t root n = some (.file c) → Visible n → toStringLossy n = name →
            CanRemove io name ∧ ∃ d, LinkFs.entry t root (ofStr name) = some (.file d) := by
  rw [RemovesListed]
  by_cases htaken : CanRemove io name ∧ LinkFs.pathExists t ⟨root, ofStr name⟩ = true
      ∧ ∃ q x, Unlinks t ⟨root, ofStr name⟩ q x
  · obtain ⟨hio, hexists, q, x, hx⟩ := htaken
    simp only [remove_taken hio hexists hx]
    constructor
    · rintro ⟨hlists, ⟨c, hc⟩, -⟩
      have hplain := hstore.plain _ _ hc
      refine ⟨fun _ _ q' x' hx' => ⟨hplain, visible_of_lists hstore.dir hlists, c, ?_⟩,
        fun _ _ _ _ _ => ⟨hio, c, hc⟩⟩
      exact Option.some.inj ((unlinks_plain hplain hx').2.symm.trans hc)
    · rintro ⟨htakes, -⟩
      obtain ⟨hplain, hv, c, rfl⟩ := htakes hio hexists q x hx
      obtain ⟨rfl, hc⟩ := unlinks_plain hplain hx
      refine ⟨(lists_iff hstore.dir).mpr ⟨_, c, hc, hv, toStringLossy_ofStr name⟩, ⟨c, hc⟩,
        fun p => ?_⟩
      split_ifs with hp
      · rw [hp]
        exact AList.lookup_erase _ t
      · exact AList.lookup_erase_ne hp
  · obtain ⟨e, he⟩ := remove_other htaken
    simp only [he, implies_true, and_true]
    constructor
    · exact fun hlists => ⟨fun hio hexists q x hx => absurd ⟨hio, hexists, q, x, hx⟩ htaken,
        fun n c hc hv hn => absurd ((lists_iff hstore.dir).mpr ⟨n, c, hc, hv, hn⟩) hlists⟩
    · rintro ⟨-, hlisted⟩ hlists
      obtain ⟨n, c, hc, hv, hn⟩ := (lists_iff hstore.dir).mp hlists
      obtain ⟨hio, d, hd⟩ := hlisted n c hc hv hn
      obtain ⟨hexists, hx⟩ := unlinks_file (hstore.plain _ _ hd) hd
      exact htaken ⟨hio, hexists, _, _, hx⟩

/-- A store with the key of the device, the file `a`, a pipe and a link to the file outside of
it. -/
def guardedStore : LinkTree (List UInt8) :=
  (((((AList.insert [ofStr "store"] .dir ∅).insert [ofStr "store", identityName]
    (.file [7])).insert [ofStr "store", ofStr "a"] (.file [1])).insert
    [ofStr "store", ofStr "pipe"] .special).insert
    [ofStr "store", ofStr "link"] (.link (ofStr "/notes"))).insert [ofStr "notes"] (.file [2])

lemma storeDir_guardedStore : LinkedStoreDir [ofStr "store"] guardedStore where
  dir := rfl
  plain := fun n x hx => by
    have hmem : n ∈ [ofStr "link", ofStr "pipe", ofStr "a", identityName] :=
      List.mem_map_of_mem (f := Prod.fst) (LinkFs.mem_children.mpr hx)
    clear hx
    revert n
    decide

theorem removesListed_iff_a : RemovesListed [ofStr "store"] {} guardedStore "a" ↔
    (CanRemove (C := List UInt8) {} "a" →
        LinkFs.pathExists guardedStore ⟨[ofStr "store"], ofStr "a"⟩ = true →
        ∀ q x, Unlinks guardedStore ⟨[ofStr "store"], ofStr "a"⟩ q x →
          Plain (ofStr "a") ∧ Visible (ofStr "a") ∧ ∃ c, x = .file c)
      ∧ ∀ n c, LinkFs.entry guardedStore [ofStr "store"] n = some (.file c) → Visible n →
          toStringLossy n = "a" → CanRemove (C := List UInt8) {} "a"
            ∧ ∃ d, LinkFs.entry guardedStore [ofStr "store"] (ofStr "a") = some (.file d) :=
  removesListed_iff storeDir_guardedStore {} "a"

/-- The key of the device, a file outside the store, the file `a` under another spelling, a
pipe and a link are removed. -/
theorem unlisted_removed :
    (∀ name ∈ [".identity", "/notes", "../notes", "./a", "pipe", "link"],
        (Linked.remove [ofStr "store"] name {} guardedStore).1 = .ok ()
          ∧ ¬ Lists [ofStr "store"] guardedStore name
          ∧ ¬ RemovesListed [ofStr "store"] {} guardedStore name)
      ∧ LinkFs.entry (Linked.remove [ofStr "store"] ".identity" {} guardedStore).2
          [ofStr "store"] identityName = none
      ∧ LinkFs.entry (Linked.remove [ofStr "store"] "/notes" {} guardedStore).2 []
          (ofStr "notes") = none := by
  refine ⟨fun name hname => ?_, by decide, by decide⟩
  have hok : (Linked.remove [ofStr "store"] name {} guardedStore).1 = .ok () := by
    revert name
    decide
  have hlists : ¬ Lists [ofStr "store"] guardedStore name := by
    rintro ⟨l, hl, e, he, rfl⟩
    have hfiles : Linked.files [ofStr "store"] {} guardedStore = .ok [⟨"a", 1⟩] := by decide
    rw [hfiles, Except.ok.injEq] at hl
    subst hl
    obtain rfl := List.mem_singleton.mp he
    exact absurd hname (by decide)
  refine ⟨hok, hlists, fun h => hlists ?_⟩
  rw [RemovesListed] at h
  split at h
  · exact h.1
  · rename_i heq
    rw [heq] at hok
    cases hok

end Dddatasync
