import Dddatasync.Library.Linearizable
import Dddatasync.Library.TreeChanges
import Dddatasync.StoreConcurrent

/-!
The calls of a store as a history, and what each step of a call is in it.

* `Shown`: what can be seen of the store; `storeSpec`: what `add`, `can_add` and `remove` do to
  it, each at once.
* `history`: the calls of a schedule, each beginning with its first step and returning with its
  last.
* `reach`: how many files a call that counts may still find.
* `tells_advance`: what a step of a call is in the history, unless it is the end of a count that
  found the store full; `follows_advance`: where a step leads.
-/

namespace Dddatasync

open Fs OsString Runs

variable {C : Type*} [HasLen C] {root : AbsPath} {fs₀ fs fs' : FileSystem C}

/-! ### The store as it is seen -/

/-- What can be seen of a store: the node under each visible name. -/
abbrev Shown (C : Type*) := OsString → Option (Node C)

/-- What can be seen of the tree. -/
def shown (root : AbsPath) (fs : FileSystem C) : Shown C :=
  fun n => if Visible n then entry fs root n else none

/-- How many files there are. -/
noncomputable def Shown.count (m : Shown C) : ℕ := {n | ∃ c, m n = some (.file c)}.ncard

/-- What a call does that succeeds; `fs₀` has the sources. -/
def Shown.Takes (fs₀ : FileSystem C) (m : Shown C) (m' : Shown C) : Call → Prop
  | .add src _ => ∃ n c, fileName src = some n ∧ metadata fs₀ src = .ok (.file c) ∧ m n = none
      ∧ m.count < maxFiles ∧ HasLen.len c ≤ maxFileBytes
      ∧ m' = Function.update m n (some (.file c))
  | .canAdd size => size ≤ maxFileBytes ∧ m.count < maxFiles ∧ m' = m
  | .remove name => (∃ c, m (ofStr name) = some (.file c))
      ∧ m' = Function.update m (ofStr name) none

/-- The source of an `add` cannot be copied to its temp file; `fs₀` has both. -/
def Call.CopyFails (root : AbsPath) (fs₀ : FileSystem C) (e : IoError) : Call → Prop
  | .add src stamp => copy fs₀ src ⟨root, tmpName stamp⟩ = .error e
  | _ => False

/-- When a call may fail, and with which error.  A listing may miss a file of the directory it
has read: of that more is said by `Disturbed`. -/
def Shown.Refuses (root : AbsPath) (fs₀ : FileSystem C) (m : Shown C) :
    Call → StoreError → Prop
  | .add src _, .noFileName => fileName src = none
  | .add src _, .tooLarge size limit => limit = maxFileBytes ∧ limit < size
      ∧ ∃ c, metadata fs₀ src = .ok (.file c) ∧ size = HasLen.len c
  | .add src _, .alreadyExists n => fileName src = some n ∧ m n ≠ none
  | .canAdd size', .tooLarge size limit => size = size' ∧ limit = maxFileBytes ∧ limit < size
  | .add _ _, .full count limit | .canAdd _, .full count limit =>
      count = m.count ∧ limit = maxFiles ∧ limit ≤ count
  | .add src stamp, .io e => (Call.add src stamp).CopyFails root fs₀ e ∨ e = .notFound
  | .canAdd _, .io e => e = .notFound
  | .remove name, .notInStore name' => name' = name ∧ (Plain (ofStr name) → m (ofStr name) = none)
  | .remove name, .io e => Plain (ofStr name) → m (ofStr name) = none ∧ e = .notFound
      ∨ m (ofStr name) = some .dir ∧ e = .isADirectory
  | _, _ => False

/-- The calls of the store, one at a time. -/
def storeSpec (root : AbsPath) (fs₀ : FileSystem C) :
    Spec (Shown C) Call (Except StoreError Unit) where
  next m call r m' :=
    match r with
    | .ok () => m.Takes fs₀ m' call
    | .error e => m' = m ∧ m.Refuses root fs₀ call e
  tau _ _ := False

/-! ### What is seen of a step -/

omit [HasLen C] in
lemma SameVisible.shown_eq (h : SameVisible root fs fs') : shown root fs' = shown root fs := by
  funext n
  by_cases hn : Visible n
  · rw [shown, shown, if_pos hn, if_pos hn, h.entry_eq n hn]
  · rw [shown, shown, if_neg hn, if_neg hn]

omit [HasLen C] in
lemma Placed.shown_eq {n : OsString} {c : C} (h : Placed root n c fs fs') (hv : Visible n) :
    shown root fs' = Function.update (shown root fs) n (some (.file c)) := by
  funext m
  by_cases hm : m = n
  · subst hm
    rw [Function.update_self, shown, if_pos hv, h.entry_self]
  · rw [Function.update_of_ne hm, shown, shown]
    split_ifs with hvm
    · exact h.entry_ne m hvm hm
    · rfl

omit [HasLen C] in
lemma Dropped.shown_eq {n : OsString} (h : Dropped root n fs fs') :
    shown root fs' = Function.update (shown root fs) n none := by
  funext m
  by_cases hm : m = n
  · subst hm
    rw [Function.update_self, shown, h.entry_self, ite_self]
  · rw [Function.update_of_ne hm, shown, shown]
    split_ifs with hvm
    · exact h.entry_ne m hvm hm
    · rfl

omit [HasLen C] in
lemma shown_file {n : OsString} {c : C} :
    shown root fs n = some (.file c) ↔ Visible n ∧ entry fs root n = some (.file c) := by
  rw [shown]
  split_ifs with hv
  · exact ⟨fun h => ⟨hv, h⟩, fun h => h.2⟩
  · exact ⟨fun h => (by cases h), fun h => absurd h.1 hv⟩

/-! ### Counting files -/

omit [HasLen C] in
lemma nodup_names (fs : FileSystem C) (root : AbsPath) :
    ((children fs root).map Prod.fst).Nodup := by
  refine AssocMap.nodup_map_collect fun p x e p' x' e' he he' heq => ?_
  obtain ⟨n, hn, rfl⟩ := Option.map_eq_some_iff.mp he
  obtain ⟨n', hn', rfl⟩ := Option.map_eq_some_iff.mp he'
  obtain rfl : n = n' := heq
  rw [childOf_eq_some.mp hn, childOf_eq_some.mp hn']

lemma fileEntry_isSome {n : OsString} {x : Node C} :
    (fileEntry n x).isSome ↔ Visible n ∧ ∃ c, x = .file c := by
  cases x with
  | dir => simp
  | file c =>
      rw [fileEntry_file]
      split_ifs with hv
      · exact ⟨fun _ => ⟨hv, c, rfl⟩, fun _ => rfl⟩
      · exact ⟨fun h => (by cases h), fun h => absurd h.1 hv⟩

/-- The names of the listed files, each once. -/
lemma exists_listed (root : AbsPath) (fs : FileSystem C) : ∃ names : List OsString, names.Nodup
    ∧ names.length = fileCount root fs ∧ ∀ n, n ∈ names ↔ Listed root fs n := by
  let picked := (children fs root).filter fun e => (fileEntry e.1 e.2).isSome
  refine ⟨picked.map Prod.fst, ?_, ?_, fun n => ?_⟩
  · exact (nodup_names fs root).sublist (List.filter_sublist.map _)
  · rw [List.length_map, fileCount, visibleFiles, List.length_filterMap_eq_countP,
      List.countP_eq_length_filter]
  · rw [List.mem_map]
    constructor
    · rintro ⟨⟨m, x⟩, he, rfl⟩
      obtain ⟨hmem, hsome⟩ := List.mem_filter.mp he
      obtain ⟨hv, c, rfl⟩ := fileEntry_isSome.mp hsome
      exact ⟨hv, c, mem_children.mp hmem⟩
    · rintro ⟨hv, c, hc⟩
      exact ⟨(n, .file c), List.mem_filter.mpr ⟨mem_children.mpr hc,
        fileEntry_isSome.mpr ⟨hv, c, rfl⟩⟩, rfl⟩

lemma fileCount_eq_ncard (root : AbsPath) (fs : FileSystem C) :
    fileCount root fs = {n | Listed root fs n}.ncard := by
  obtain ⟨names, hnodup, hlen, hmem⟩ := exists_listed root fs
  have hset : {n | Listed root fs n} = (names.toFinset : Set OsString) := by
    ext n
    rw [Set.mem_ofPred_eq, List.coe_toFinset, Set.mem_ofPred_eq, hmem]
  rw [hset, Set.ncard_coe_finset, List.toFinset_card_of_nodup hnodup, hlen]

lemma count_shown (root : AbsPath) (fs : FileSystem C) :
    (shown root fs).count = fileCount root fs := by
  have hset : {n | ∃ c, shown root fs n = some (.file c)} = {n | Listed root fs n} := by
    ext n
    exact ⟨fun ⟨c, hc⟩ => ⟨(shown_file.mp hc).1, c, (shown_file.mp hc).2⟩,
      fun ⟨hv, c, hc⟩ => ⟨c, shown_file.mpr ⟨hv, hc⟩⟩⟩
  rw [Shown.count, hset, fileCount_eq_ncard]

/-- The files among some names. -/
def among (root : AbsPath) (fs : FileSystem C) (names : List OsString) : Set OsString :=
  {n | n ∈ names ∧ Listed root fs n}

omit [HasLen C] in
lemma among_finite (root : AbsPath) (fs : FileSystem C) (names : List OsString) :
    (among root fs names).Finite :=
  names.toFinset.finite_toSet.subset fun _ hn => List.mem_toFinset.mpr hn.1

/-- How many files a call finds that has found some and has these names to look at yet, if
nothing goes away. -/
noncomputable def reach (root : AbsPath) (fs : FileSystem C) (pending : List OsString)
    (found : List FileEntry) : ℕ := found.length + (among root fs pending).ncard

/-- When the directory has just been read. -/
lemma reach_all (root : AbsPath) (fs : FileSystem C) :
    reach root fs ((children fs root).map Prod.fst) [] = fileCount root fs := by
  have hset : among root fs ((children fs root).map Prod.fst) = {n | Listed root fs n} := by
    refine Set.ext fun n => ⟨fun hn => hn.2, fun hn => ⟨?_, hn⟩⟩
    obtain ⟨-, c, hc⟩ := hn
    exact List.mem_map_of_mem (f := Prod.fst) (mem_children.mpr hc)
  rw [reach, hset, fileCount_eq_ncard, List.length_nil, zero_add]

omit [HasLen C] in
lemma reach_nil (root : AbsPath) (fs : FileSystem C) (found : List FileEntry) :
    reach root fs [] found = found.length := by
  have hset : among root fs [] = ∅ := Set.eq_empty_of_forall_notMem fun n hn => by cases hn.1
  rw [reach, hset, Set.ncard_empty, add_zero]

/-- Nothing that others do adds to it. -/
lemma reach_shrinks (h : Shrinks root fs fs') (pending : List OsString)
    (found : List FileEntry) : reach root fs' pending found ≤ reach root fs pending found := by
  refine Nat.add_le_add_left (Set.ncard_le_ncard ?_ (among_finite root fs pending)) _
  rintro n ⟨hn, hv, c, hc⟩
  refine ⟨hn, hv, c, ?_⟩
  rcases h.entry_eq n hv with heq | heq
  · rw [← heq, hc]
  · rw [heq] at hc
    cases hc

omit [HasLen C] in
/-- A name that is no file. -/
lemma reach_skip {n : OsString} {pending : List OsString} {found : List FileEntry}
    (h : ¬ Listed root fs n) :
    reach root fs (n :: pending) found = reach root fs pending found := by
  have hset : among root fs (n :: pending) = among root fs pending := by
    refine Set.ext fun m => ⟨fun hm => ⟨?_, hm.2⟩, fun hm => ⟨List.mem_cons_of_mem n hm.1, hm.2⟩⟩
    refine (List.mem_cons.mp hm.1).resolve_left ?_
    rintro rfl
    exact h hm.2
  rw [reach, reach, hset]

omit [HasLen C] in
/-- A name that is a file. -/
lemma reach_take {n : OsString} {pending : List OsString} {found : List FileEntry}
    {e : FileEntry} (hn : n ∉ pending) (h : Listed root fs n) :
    reach root fs (n :: pending) found = reach root fs pending (found ++ [e]) := by
  have hset : among root fs (n :: pending) = insert n (among root fs pending) := by
    refine Set.ext fun m => ⟨fun hm => ?_, fun hm => ?_⟩
    · exact (List.mem_cons.mp hm.1).imp_right fun hmem => ⟨hmem, hm.2⟩
    · rcases hm with rfl | hm
      · exact ⟨List.mem_cons_self, h⟩
      · exact ⟨List.mem_cons_of_mem n hm.1, hm.2⟩
  rw [reach, reach, hset, Set.ncard_insert_of_notMem (fun hm => hn hm.1)
    (among_finite root fs pending), List.length_append, List.length_singleton]
  omega

/-! ### The history of a schedule -/

/-- How far a call is that stands at `pc`. -/
def Pc.progress (call : Call) : Pc → Progress Call (Except StoreError Unit)
  | .start | .done _ => .idle
  | .unlock r => .done call r
  | .discard e => .done call (.error e)
  | _ => .pending call

variable {ι : Type*}

/-- What a call has returned. -/
def Pc.result : Pc → Option (Except StoreError Unit)
  | .done r => some r
  | _ => none

/-- What a step of call `i` adds to the history: its first step begins it, its last returns. -/
def events (i : ι) (call : Call) (pc pc' : Pc) :
    List (CallEvent ι Call (Except StoreError Unit)) :=
  (if pc = .start then [.call i call] else [])
    ++ if pc.result = none then (pc'.result.map (CallEvent.ret i)).toList else []

/-- The history of a schedule. -/
def history [DecidableEq ι] (root : AbsPath) (calls : ι → Call) :
    Threads ι C → List ι → List (CallEvent ι Call (Except StoreError Unit))
  | _, [] => []
  | s, i :: schedule =>
      let s' := step root calls s i
      events i (calls i) (s.pcs i) (s'.pcs i) ++ history root calls s' schedule

/-- What a step from `pc` in the tree `fs` to `pc'` in the tree `fs'` is in the history. -/
def Tells (root : AbsPath) (fs₀ fs : FileSystem C) (i : ι) (call : Call) (pc : Pc)
    (o : Next C) : Prop :=
  (pc.progress call).Moves (storeSpec root fs₀) i (shown root fs) (events i call pc o.pc)
    (o.pc.progress call) (shown root o.fs)

variable {i : ι} {call : Call} {pc pc' : Pc}

omit [HasLen C] in
lemma events_silent (hstart : pc ≠ .start) (hdone : pc'.result = pc.result) :
    events i call pc pc' = [] := by
  rw [events, if_neg hstart, List.nil_append, hdone]
  split_ifs with hnone
  · rw [hnone]
    rfl
  · rfl

omit [HasLen C] in
lemma call_mem_events {j : ι} {op : Call} :
    .call j op ∈ events i call pc pc' ↔ j = i ∧ op = call ∧ pc = .start := by
  rw [events, List.mem_append]
  constructor
  · rintro (hmem | hmem)
    · split_ifs at hmem with hstart
      · obtain ⟨rfl, rfl⟩ := CallEvent.call.inj (List.mem_singleton.mp hmem)
        exact ⟨rfl, rfl, hstart⟩
      · cases hmem
    · split_ifs at hmem
      · rw [Option.mem_toList, Option.map_eq_some_iff] at hmem
        obtain ⟨r, -, heq⟩ := hmem
        cases heq
      · cases hmem
  · rintro ⟨rfl, rfl, hstart⟩
    rw [if_pos hstart]
    exact .inl (List.mem_singleton_self _)

omit [HasLen C] in
lemma ret_mem_events {j : ι} {r : Except StoreError Unit} : .ret j r ∈ events i call pc pc'
    ↔ j = i ∧ pc.result = none ∧ pc'.result = some r := by
  rw [events, List.mem_append]
  constructor
  · rintro (hmem | hmem)
    · split_ifs at hmem
      · cases List.mem_singleton.mp hmem
      · cases hmem
    · split_ifs at hmem with hnone
      · rw [Option.mem_toList, Option.map_eq_some_iff] at hmem
        obtain ⟨r', hr', heq⟩ := hmem
        obtain ⟨rfl, rfl⟩ := CallEvent.ret.inj heq
        exact ⟨rfl, hnone, hr'⟩
      · cases hmem
  · rintro ⟨rfl, hnone, hr⟩
    rw [if_pos hnone, hr]
    exact .inr (List.mem_singleton_self _)

/-- A step that neither begins nor ends a call nor gives it its effect. -/
lemma tells_wait (hstart : pc ≠ .start) (hdone : pc'.result = pc.result)
    (hp : pc'.progress call = pc.progress call) (hfs : shown root fs' = shown root fs) :
    Tells root fs₀ fs i call pc { pc := pc', fs := fs' } := by
  simp only [Tells, events_silent hstart hdone, hp, hfs]
  exact .wait _ _

lemma progress_refuse (target : Option OsString) (e : StoreError) :
    (refuse target e).progress call = .done call (.error e) := by
  cases target <;> rfl

/-- A limit check that fails takes effect there. -/
lemma tells_refuse {target : Option OsString} {e : StoreError} (hstart : pc ≠ .start)
    (hp : pc.progress call = .pending call) (he : (shown root fs).Refuses root fs₀ call e) :
    Tells root fs₀ fs i call pc { pc := refuse target e, fs := fs } := by
  have hev : events i call pc (refuse target e) = [] := by
    rw [events, if_neg hstart, List.nil_append]
    cases target <;> exact ite_self _
  simp only [Tells, hev, hp, progress_refuse]
  exact .commit ⟨rfl, he⟩

omit [HasLen C] in
/-- The copy of an unchanged source fails as it would have at the beginning. -/
lemma copyFails_of_metadata {src : PathBuf} {stamp : Stamp} {e : IoError}
    (hsrc : (Call.add src stamp).SourceSame fs₀ fs) (h : metadata fs src = .error e) :
    (Call.add src stamp).CopyFails root fs₀ e := by
  have hmeta : metadata fs₀ src = .error e := hsrc.symm.trans h
  rw [Call.CopyFails, copy, hmeta]

lemma copyFails_of_copyToTmp {src : PathBuf} {stamp : Stamp} {e : IoError} {size : ℕ}
    {n : OsString} (hsrc : (Call.add src stamp).SourceSame fs₀ fs)
    (htask : TaskOk root fs₀ fs (.add src stamp) (.copy size n))
    (h : copyToTmp root src (tmpName stamp) {} fs = (.error e, fs')) :
    (Call.add src stamp).CopyFails root fs₀ e := by
  obtain ⟨-, -, htmp⟩ := htask
  have hmeta : metadata fs₀ src = metadata fs src := hsrc.symm
  have hcopy : copy fs src ⟨root, tmpName stamp⟩ = .error e := by
    rw [copyToTmp] at h
    simp only at h
    split at h
    · rename_i e' hcopy
      rw [hcopy, Except.error.inj (Prod.mk.inj h).1]
    · cases h
  rw [Call.CopyFails, copy, hmeta]
  rw [copy] at hcopy
  cases hx : metadata fs src with
  | error e' => simpa only [hx] using hcopy
  | ok x =>
      cases x with
      | dir => simpa only [hx] using hcopy
      | file c =>
          simp only [hx, write_plain _ _ _ (plain_tmpName stamp), htmp] at hcopy ⊢
          split at hcopy
          · exact hcopy
          · cases hcopy

lemma tells_stat {src : PathBuf} {stamp : Stamp}
    (hsrc : (Call.add src stamp).SourceSame fs₀ fs) :
    Tells root fs₀ fs i (.add src stamp) .start (advance root fs (.add src stamp) .start) := by
  rw [advance_start]
  split
  · rename_i e he
    exact .call_answer ⟨rfl, .inl (copyFails_of_metadata hsrc he)⟩
  · split
    · rename_i hname
      exact .call_answer ⟨rfl, hname⟩
    · exact .call _ _

lemma tells_copy {src : PathBuf} {stamp : Stamp} {size : ℕ} {n : OsString}
    (hsrc : (Call.add src stamp).SourceSame fs₀ fs)
    (htask : TaskOk root fs₀ fs (.add src stamp) (.copy size n)) :
    Tells root fs₀ fs i (.add src stamp) (.copy size n)
      (advance root fs (.add src stamp) (.copy size n)) := by
  rw [advance_copy]
  rcases hcopy : copyToTmp root src (tmpName stamp) {} fs with ⟨r, fs'⟩
  cases r with
  | error e =>
      rw [copyToTmp_error_eq hcopy]
      exact .answer ⟨rfl, .inl (copyFails_of_copyToTmp hsrc htask hcopy)⟩
  | ok u =>
      obtain ⟨c, -, rfl⟩ := copyToTmp_ok (plain_tmpName stamp) hcopy
      exact tells_wait (by simp) rfl rfl
        (sameVisible_insert _ (not_visible_tmpName stamp)).shown_eq

lemma tells_remove {name : String} (hleg : (Call.remove name).Legal) :
    Tells root fs₀ fs i (.remove name) .start (advance root fs (.remove name) .start) := by
  rw [advance_remove]
  split
  · exact .call _ _
  · rename_i hex
    refine .call_answer ⟨rfl, rfl, fun hplain => ?_⟩
    rw [pathExists_plain hplain, Bool.not_eq_true, Option.isSome_eq_false_iff,
      Option.isNone_iff_eq_none] at hex
    rw [shown, if_pos hleg.2, hex]

lemma tells_removeFile {name : String} (hroot : node fs root = some .dir)
    (hleg : (Call.remove name).Legal) :
    Tells root fs₀ fs i (.remove name) .removeFile
      (advance root fs (.remove name) .removeFile) := by
  rw [advance_removeFile]
  split
  · rename_i e hremove
    refine .answer ⟨rfl, fun hplain => ?_⟩
    simp only [Fs.removeFile, resolve_plain fs root hplain, node_snoc] at hremove
    rw [shown, if_pos hleg.2]
    cases hentry : entry fs root (ofStr name) with
    | none =>
        simp only [hentry] at hremove
        exact .inl ⟨rfl, (Except.error.inj hremove).symm⟩
    | some x =>
        cases x with
        | dir =>
            simp only [hentry] at hremove
            exact .inr ⟨rfl, (Except.error.inj hremove).symm⟩
        | file c =>
            simp only [hentry] at hremove
            cases hremove
  · rename_i fs' hremove
    obtain ⟨rfl, c, hc⟩ := removeFile_visible hroot hleg.1 hleg.2 hremove
    exact .answer ⟨⟨c, shown_file.mpr ⟨hleg.2, hc⟩⟩, (dropped_erase hc).shown_eq⟩

/-- A limit check is about the size its caller asked for. -/
def SizeOk : Call → Pc → Prop
  | .canAdd size, .lock size' _ | .canAdd size, .check size' _ => size' = size
  | .canAdd size, .count _ _ _ => size ≤ maxFileBytes
  | _, _ => True

lemma tells_check {size : ℕ} {target : Option OsString} (hroot : node fs root = some .dir)
    (h : Aims root fs₀ fs size call target) (hsized : SizeOk call (.check size target)) :
    Tells root fs₀ fs i call (.check size target)
      { pc := beginCheck root size target fs, fs := fs } := by
  rw [beginCheck, readDir_root hroot]
  split_ifs with hsize
  · refine tells_refuse (by simp) rfl ?_
    cases call with
    | add src stamp =>
        cases target with
        | none => exact h.elim
        | some n =>
            obtain ⟨c, hc, hs⟩ := h
            exact ⟨rfl, hsize, c, hc.source, hs⟩
    | canAdd size' => exact ⟨hsized, rfl, hsize⟩
    | remove name => cases target <;> exact h.elim
  · exact tells_wait (by simp) rfl rfl rfl

lemma tells_countEntry {target : Option OsString} {n : OsString} {pending : List OsString}
    {found : List FileEntry} {size : ℕ} (h : Aims root fs₀ fs size call target) :
    Tells root fs₀ fs i call (.count target (n :: pending) found)
      { pc := countEntry root target n pending found fs, fs := fs } := by
  rw [countEntry]
  split
  · exact tells_wait (by simp) rfl rfl rfl
  · split
    · refine tells_refuse (by simp) rfl ?_
      cases call with
      | add src stamp => exact .inr rfl
      | canAdd size => exact rfl
      | remove name => cases target <;> exact h.elim
    · exact tells_wait (by simp) rfl rfl rfl

/-- The count leaves room. -/
lemma tells_endCheck {target : Option OsString} {found : List FileEntry}
    (h : TaskOk root fs₀ fs call (.count target [] found)) (hroom : found.length < maxFiles)
    (hsized : SizeOk call (.count target [] found)) :
    Tells root fs₀ fs i call (.count target [] found)
      { pc := endCheck target found, fs := fs } := by
  obtain ⟨_, -, haims, seen, hlen, hcover⟩ := taskOk_count.mp h
  have hcount : fileCount root fs ≤ seen.length :=
    fileCount_le_of_cover fun n hn => (hcover n hn).resolve_left List.not_mem_nil
  rw [endCheck, if_neg (not_le.mpr hroom)]
  cases call with
  | add src stamp =>
      cases target with
      | none => exact haims.elim
      | some n => exact tells_wait (by simp) rfl rfl rfl
  | canAdd size =>
      cases target with
      | none => exact .commit ⟨hsized, by rw [count_shown]; omega, rfl⟩
      | some n => exact haims.elim
  | remove name => cases target <;> exact haims.elim

lemma tells_exists {src : PathBuf} {stamp : Stamp} {n : OsString}
    (h : TaskOk root fs₀ fs (.add src stamp) (.exists n)) :
    Tells root fs₀ fs i (.add src stamp) (.exists n)
      (advance root fs (.add src stamp) (.exists n)) := by
  obtain ⟨c, hc, -, -⟩ := h
  rw [advance_exists]
  split
  · rename_i hex
    rw [pathExists_plain hc.plain, Option.isSome_iff_ne_none] at hex
    refine .commit ⟨rfl, hc.fileName, ?_⟩
    rw [shown, if_pos hc.visible]
    exact hex
  · exact tells_wait (by simp) rfl rfl rfl

lemma tells_rename {src : PathBuf} {stamp : Stamp} {n : OsString}
    (h : TaskOk root fs₀ fs (.add src stamp) (.rename n)) :
    Tells root fs₀ fs i (.add src stamp) (.rename n)
      (advance root fs (.add src stamp) (.rename n)) := by
  have hadv := advanced_rename h
  obtain ⟨c, hc, hsize, hroom, hfree⟩ := h
  rw [advance_rename_eq hc hfree] at hadv ⊢
  cases hadv.effect with
  | hidden _ changes => cases changes
  | dropped name call_eq => cases call_eq
  | placed src' stamp' m d call_eq pc_eq copied _ placed _ _ _ _ =>
      obtain ⟨rfl, rfl⟩ := Call.add.inj call_eq
      obtain rfl := Pc.rename.inj pc_eq
      refine .commit ⟨n, d, copied.fileName, copied.source, ?_, ?_, ?_,
        placed.shown_eq copied.visible⟩
      · rw [shown, hfree, ite_self]
      · rw [count_shown]
        exact hroom
      · obtain rfl : c = d := by
          have hsource := hc.source.symm.trans copied.source
          exact Node.file.inj (Except.ok.inj hsource)
        exact hsize

lemma tells_discard {src : PathBuf} {stamp : Stamp} {e : StoreError} {o : Next C}
    (h : Advanced root fs₀ fs (.add src stamp) (.discard e) o) (hpc : o.pc = .unlock (.error e)) :
    Tells root fs₀ fs i (.add src stamp) (.discard e) o := by
  obtain ⟨pc, fs', changes⟩ := o
  obtain rfl : pc = .unlock (.error e) := hpc
  cases h.effect with
  | hidden same _ _ =>
      have hwait : Tells root fs₀ fs i (.add src stamp) (.discard e)
          { pc := .unlock (.error e), fs := fs' } := tells_wait (by simp) rfl rfl same.shown_eq
      exact hwait
  | placed _ _ _ _ _ pc_eq => cases pc_eq
  | dropped _ call_eq => cases call_eq

/-- **What a step of a call is in the history**, unless it is the end of a count that found the
store full. -/
lemma tells_advance (hroot : node fs root = some .dir) (hleg : call.Legal)
    (hsrc : call.SourceSame fs₀ fs) (htask : TaskOk root fs₀ fs call pc)
    (hsized : SizeOk call pc) (hlock : ∀ size target, pc ≠ .lock size target)
    (hunlock : ∀ r, pc ≠ .unlock r)
    (hroom : ∀ target found, pc = .count target [] found → found.length < maxFiles) :
    Tells root fs₀ fs i call pc (advance root fs call pc) := by
  cases pc with
  | start =>
      cases call with
      | add src stamp => exact tells_stat hsrc
      | canAdd size => exact .call _ _
      | remove name => exact tells_remove hleg
  | copy size n =>
      cases call with
      | add src stamp => exact tells_copy hsrc htask
      | canAdd size => exact htask.elim
      | remove name => exact htask.elim
  | lock size target => exact absurd rfl (hlock size target)
  | check size target =>
      rw [advance_check]
      exact tells_check hroot (taskOk_check.mp htask) hsized
  | count target pending found =>
      cases pending with
      | nil =>
          rw [advance_count_nil]
          exact tells_endCheck htask (hroom _ _ rfl) hsized
      | cons n pending =>
          rw [advance_count_cons]
          obtain ⟨size, -, haims, -⟩ := taskOk_count.mp htask
          exact tells_countEntry haims
  | «exists» n =>
      cases call with
      | add src stamp => exact tells_exists htask
      | canAdd size => exact htask.elim
      | remove name => exact htask.elim
  | rename n =>
      cases call with
      | add src stamp => exact tells_rename htask
      | canAdd size => exact htask.elim
      | remove name => exact htask.elim
  | discard e =>
      cases call with
      | add src stamp => exact tells_discard (advanced_discard htask) (by rw [advance_discard])
      | canAdd size => exact htask.elim
      | remove name => exact htask.elim
  | removeFile =>
      cases call with
      | add src stamp => exact htask.elim
      | canAdd size => exact htask.elim
      | remove name => exact tells_removeFile hroot hleg
  | unlock r => exact absurd rfl (hunlock r)
  | done r => cases call <;> exact tells_wait (by simp) rfl rfl rfl

/-! ### Where a step leads -/

/-- What a call that counts came from: it has just read the directory, or has looked at one more
name, which was no file or which it found. -/
def CountedFrom (root : AbsPath) (fs : FileSystem C) (pc : Pc) (target : Option OsString)
    (pending : List OsString) (found : List FileEntry) : Prop :=
  (∃ size, pc = .check size target ∧ pending = (children fs root).map Prod.fst ∧ found = [])
    ∨ ∃ n found₀, pc = .count target (n :: pending) found₀
      ∧ (n ∉ pending → reach root fs (n :: pending) found₀ = reach root fs pending found)

/-- A call that has just begun to count, or looked at one more name, left the tree alone. -/
lemma CountedFrom.fs_eq {target : Option OsString} {pending : List OsString}
    {found : List FileEntry} (h : CountedFrom root fs pc target pending found) :
    (advance root fs call pc).fs = fs ∧ pc ≠ .start ∧ pc.result = none ∧ pc.Holding
      ∧ pc.progress call = .pending call := by
  rcases h with ⟨size, rfl, -⟩ | ⟨n, found₀, rfl, -⟩
  · rw [advance_check]
    exact ⟨rfl, by simp, rfl, trivial, rfl⟩
  · rw [advance_count_cons]
    exact ⟨rfl, by simp, rfl, trivial, rfl⟩

/-- Where a step may lead. -/
structure Follows (root : AbsPath) (fs : FileSystem C) (call : Call) (pc pc' : Pc) : Prop where
  ne_start : pc' ≠ .start
  sized : SizeOk call pc → SizeOk call pc'
  counted : ∀ target pending found, pc' = .count target pending found →
    CountedFrom root fs pc target pending found

omit [HasLen C] in
/-- A step that does not lead to another count. -/
lemma Follows.of_ne (h : pc' ≠ .start) (hsized : SizeOk call pc → SizeOk call pc')
    (hcount : ∀ target pending found, pc' ≠ .count target pending found) :
    Follows root fs call pc pc' :=
  ⟨h, hsized, fun target pending found heq => absurd heq (hcount target pending found)⟩

omit [HasLen C] in
lemma follows_refuse (target : Option OsString) (e : StoreError) :
    Follows root fs call pc (refuse target e) := by
  cases target <;> exact .of_ne (by simp [refuse]) (fun _ => by cases call <;> trivial)
    (by simp [refuse])

omit [HasLen C] in
lemma follows_beginCheck (hroot : node fs root = some .dir) (size : ℕ)
    (target : Option OsString) :
    Follows root fs call (.check size target) (beginCheck root size target fs) := by
  rw [beginCheck, readDir_root hroot]
  split_ifs with hsize
  · exact follows_refuse _ _
  · refine ⟨by simp, fun hs => ?_, fun target' pending found heq => ?_⟩
    · cases call with
      | canAdd size' =>
          obtain rfl : size = size' := hs
          exact not_lt.mp hsize
      | _ => trivial
    · obtain ⟨rfl, rfl, rfl⟩ := Pc.count.inj heq
      exact .inl ⟨size, rfl, rfl, rfl⟩

lemma follows_countEntry (target : Option OsString) (n : OsString) (pending : List OsString)
    (found : List FileEntry) : Follows root fs call (.count target (n :: pending) found)
      (countEntry root target n pending found fs) := by
  have hgo : ∀ found', (n ∉ pending →
      reach root fs (n :: pending) found = reach root fs pending found') →
      Follows root fs call (.count target (n :: pending) found) (.count target pending found') := by
    intro found' hreach
    refine ⟨by simp, fun hs => by cases call <;> exact hs, fun target' pending' found'' heq => ?_⟩
    obtain ⟨rfl, rfl, rfl⟩ := Pc.count.inj heq
    exact .inr ⟨n, found, rfl, hreach⟩
  rw [countEntry]
  split
  · rename_i hdot
    exact hgo _ fun _ => reach_skip fun hl => startsWithDot_toStringLossy.mp hdot hl.1
  · rename_i hdot
    have hv : Visible n := not_not.mp fun hv => hdot (startsWithDot_toStringLossy.mpr hv)
    cases hn : entry fs root n with
    | none => exact follows_refuse _ _
    | some x =>
        cases x with
        | dir =>
            refine hgo _ fun _ => ?_
            rw [fileEntry_dir, Option.toList_none, List.append_nil]
            refine reach_skip ?_
            rintro ⟨-, c, hc⟩
            rw [hn] at hc
            cases hc
        | file c =>
            refine hgo _ fun hnot => ?_
            rw [fileEntry_file, if_pos hv]
            exact reach_take hnot ⟨hv, c, hn⟩

omit [HasLen C] in
lemma follows_endCheck (target : Option OsString) (found : List FileEntry) :
    Follows root fs call (.count target [] found) (endCheck target found) := by
  rw [endCheck]
  split_ifs
  · exact follows_refuse _ _
  · cases target <;> exact .of_ne (by simp [approve]) (fun _ => by cases call <;> trivial)
      (by simp [approve])

/-- **Where a step leads.** -/
lemma follows_advance (hroot : node fs root = some .dir) (htask : TaskOk root fs₀ fs call pc) :
    Follows root fs call pc (advance root fs call pc).pc := by
  have hgo : ∀ {pc pc'}, pc' ≠ .start → (∀ target pending found, pc' ≠ .count target pending found)
      → (∀ size, call ≠ .canAdd size) → Follows root fs call pc pc' := by
    intro pc pc' hstart hcount hcall
    refine .of_ne hstart (fun _ => ?_) hcount
    cases call with
    | canAdd size => exact absurd rfl (hcall size)
    | _ => cases pc' <;> trivial
  cases pc with
  | start =>
      cases call with
      | add src stamp =>
          rw [advance_start]
          split
          · exact hgo (by simp) (by simp) (by simp)
          · split <;> exact hgo (by simp) (by simp) (by simp)
      | canAdd size =>
          exact .of_ne (by simp [advance_canAdd]) (fun _ => rfl) (by simp [advance_canAdd])
      | remove name =>
          rw [advance_remove]
          split <;> exact hgo (by simp) (by simp) (by simp)
  | copy size n =>
      cases call with
      | add src stamp =>
          rw [advance_copy]
          split <;> exact hgo (by simp) (by simp) (by simp)
      | canAdd size => exact htask.elim
      | remove name => exact htask.elim
  | lock size target => cases call <;> exact .of_ne (by simp [advance]) id (by simp [advance])
  | check size target =>
      rw [advance_check]
      exact follows_beginCheck hroot size target
  | count target pending found =>
      cases pending with
      | nil =>
          rw [advance_count_nil]
          exact follows_endCheck target found
      | cons n pending =>
          rw [advance_count_cons]
          exact follows_countEntry target n pending found
  | «exists» n =>
      cases call with
      | add src stamp =>
          rw [advance_exists]
          split <;> exact hgo (by simp) (by simp) (by simp)
      | canAdd size => exact htask.elim
      | remove name => exact htask.elim
  | rename n =>
      cases call with
      | add src stamp =>
          obtain ⟨c, hc, -, -, hfree⟩ := htask
          rw [advance_rename_eq hc hfree]
          exact hgo (by simp) (by simp) (by simp)
      | canAdd size => exact htask.elim
      | remove name => exact htask.elim
  | discard e =>
      cases call with
      | add src stamp =>
          rw [advance_discard]
          exact hgo (by simp) (by simp) (by simp)
      | canAdd size => exact htask.elim
      | remove name => exact htask.elim
  | removeFile =>
      cases call with
      | add src stamp => exact htask.elim
      | canAdd size => exact htask.elim
      | remove name =>
          rw [advance_removeFile]
          split <;> exact hgo (by simp) (by simp) (by simp)
  | unlock r => cases call <;> exact .of_ne (by simp [advance]) id (by simp [advance])
  | done r => cases call <;> exact .of_ne (by simp [advance]) id (by simp [advance])

end Dddatasync
