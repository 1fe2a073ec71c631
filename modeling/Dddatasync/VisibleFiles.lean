import Dddatasync.Writers

/-!
What can be seen in the store while files are put into it: `add` of `src/store.rs` against
`pull` of `src/sync.rs`, at any number and with crashes.

* `Supplies`: where a visible file comes from, the source of an `add` or the collection of an
  accepted offer.
* `Clobbers`: an `add` puts its file under the temp name of a writer that is using it.  `add`
  takes any name its source has, `pull` refuses the names that begin with a dot.
* `AddOk`, `PullOk`, `Inv`: what a writer knows of its temp file where it stands.
* `visible_complete`: in every run without such an `add` a visible file is unchanged or
  complete; `visible_complete_of_shown`: sources with visible names suffice.
* `export_overwritten`: a run in which an `add` gets in between.
-/

namespace Dddatasync

open Fs OsString Runs

variable {ι P C NodeId Sock Relay Hash : Type*} [HasLen C] [DecidableEq ι] [DecidableEq P]
  [DecidableEq Hash]

/-! ### Statements -/

/-- The temp file of the writer is being put together, or waits for its rename. -/
def Stage.Staging : Stage C Hash → Prop
  | .add (.copying _ _ _) => True
  | .add (.call pc) => pc.aim.isSome
  | .pull (.exporting _) | .pull (.publishing _) => True
  | _ => False

namespace Writing

variable (w : Writing ι P C NodeId Sock Relay Hash)

/-- Writer `i` has a file `c` for the name `n`: its `add` is about to copy a source with that
name and content, or its `pull` is at the collection its offer stands for, with `c` first. -/
def Supplies (i : ι) (n : OsString) (c : C) (s : Writers ι P C Hash) : Prop :=
  match w.writers i with
  | .add src _ => fileName src = some n ∧ metadata s.fs src = .ok (.file c)
      ∧ ∃ size, s.stages i = .add (.call (.copy size n))
  | .pull p => safeName p.fileName = true ∧ ofStr p.fileName = n
      ∧ ∃ hash name rest, w.codec.parseHash p.hash = some hash
        ∧ w.blobs.collectionHash ((name, w.blobs.fileHash c) :: rest) = hash
        ∧ s.stages i = .pull (.fetching hash)

/-- An `add` is about to rename its file to a temp name that another writer is using. -/
def Clobbers (s : Writers ι P C Hash) (a : WriterAct ι P C Hash) : Prop :=
  ∃ i j n, a = .add i .go ∧ s.stages i = .add (.call (.rename n)) ∧ j ≠ i
    ∧ (s.stages j).Staging ∧ (w.writers j).staged = n

/-- The visible name `n` has what it had before the run, or the whole content that some writer
had for it during the run. -/
def Complete (fs₀ : FileSystem C) (done : List (WriterAct ι P C Hash)) (fs : FileSystem C)
    (n : OsString) : Prop :=
  entry fs w.root n = entry fs₀ w.root n
    ∨ ∃ i c, entry fs w.root n = some (.file c)
      ∧ Sometime w.step (w.Supplies i n c) (w.init fs₀) done

end Writing

/-! ### What a writer knows -/

/-- What an `add` knows where it stands: the name of its source, the content it has opened,
and, once it has made its copy, that its temp file has that content. -/
structure AddOk (root : AbsPath) (src : PathBuf) (stamp : Stamp) (got : OsString → C → Prop)
    (fs : FileSystem C) (pc : AddPc C) : Prop where
  named : ∀ size n, pc = .call (.copy size n) → fileName src = some n
  opened : ∀ size n c, pc = .copying size n c → fileName src = some n ∧ Plain n ∧ got n c
  copied : ∀ q n, pc = .call q → q.aim = some n → fileName src = some n ∧ Plain n
    ∧ ∃ c, got n c ∧ entry fs root (tmpName stamp) = some (.file c)

/-- What a `pull` knows where it stands. -/
structure PullOk (k : Codec NodeId Sock Relay Hash) (root : AbsPath) (p : PullCall)
    (got : OsString → C → Prop) (fs : FileSystem C) (pc : PullPc C Hash) : Prop where
  begun : ∀ hash, pc = .fetching hash →
    safeName p.fileName = true ∧ k.parseHash p.hash = some hash
  fetched : ∀ c, pc = .exporting c → safeName p.fileName = true ∧ got (ofStr p.fileName) c
  exported : ∀ c, pc = .publishing c → safeName p.fileName = true ∧ got (ofStr p.fileName) c
    ∧ entry fs root (exportName p.exportStamp) = some (.file c)

/-- What a step does to the tree: it changes a hidden entry of the writer, or it puts the
temp file under a name that the writer has the content for. -/
inductive Touched (root : AbsPath) (writer : Writer) (got : OsString → C → Prop)
    (fs fs' : FileSystem C) (stage : Stage C Hash) : Prop
  | hidden (m : OsString) (own : m = writer.staged ∨ ∃ t, m = recvName t)
      (same : SameExcept root m fs fs')
  | placed (n : OsString) (c : C) (got : got n c) (plain : Plain n)
      (aimed : Visible n ∨ stage = .add (.call (.rename n)))
      (fs_eq : fs' = (fs.erase (root ++ [writer.staged])).insert (root ++ [n]) (.file c))

section Known

variable {root : AbsPath} {src : PathBuf} {stamp : Stamp} {got got' : OsString → C → Prop}
  {fs fs' : FileSystem C} {pc pc' : AddPc C} {k : Codec NodeId Sock Relay Hash}
  {b : Blobs C Hash} {p : PullCall} {qc qc' : PullPc C Hash}

omit [HasLen C] in
lemma not_visible_staged (writer : Writer) : ¬ Visible writer.staged := by
  cases writer with
  | add src stamp => exact not_visible_tmpName stamp
  | pull p => exact not_visible_exportName p.exportStamp

lemma tmpName_ne_recvName (t t' : Stamp) : tmpName t ≠ recvName t' := by
  intro h
  have hl := congrArg (fun s : String => s.toList.take 2) (ofStr_injective h)
  simp only [String.toList_append] at hl
  exact absurd hl (by simp)

lemma staged_ne_recvName (writer : Writer) (t : Stamp) : writer.staged ≠ recvName t := by
  cases writer with
  | add src stamp => exact tmpName_ne_recvName stamp t
  | pull p => exact exportName_ne_recvName p.exportStamp t

omit [HasLen C] in
/-- An `add` that aims at nothing and copies nothing has nothing to know. -/
lemma addOk_idle {q : Pc} (haim : q.aim = none) (hcopy : ∀ size n, q ≠ .copy size n) :
    AddOk root src stamp got fs (.call q) where
  named := fun size n heq => absurd (AddPc.call.inj heq) (hcopy size n)
  opened := by simp
  copied := by
    rintro _ n heq hn
    obtain rfl := AddPc.call.inj heq
    rw [haim] at hn
    cases hn

omit [HasLen C] [DecidableEq Hash] in
/-- **A step of an `add`.**  An `add` that knows what it should knows what it should
afterwards. -/
lemma addOk_stepped (Hash : Type*) (h : AddStepped root src stamp fs fs' pc pc')
    (hgot : ∀ n c, fileName src = some n → metadata fs src = .ok (.file c) →
      (∃ size, pc = .call (.copy size n)) → got n c)
    (hok : AddOk root src stamp got fs pc) : AddOk root src stamp got fs' pc'
      ∧ Touched root (.add src stamp) got fs fs' (.add pc : Stage C Hash) := by
  have hstay : ∀ m, SameExcept root m fs fs := fun m => .refl m fs
  cases h with
  | looked size name named fs_eq =>
      subst fs_eq
      refine ⟨⟨?_, by simp, ?_⟩, .hidden _ (.inl rfl) (hstay _)⟩
      · rintro size n heq
        cases heq
        exact named
      · rintro q n heq hn
        cases heq
        cases hn
  | opened size name c source fs_eq =>
      subst fs_eq
      have hname := hok.named size name rfl
      refine ⟨⟨by simp, ?_, by simp⟩, .hidden _ (.inl rfl) (hstay _)⟩
      rintro size' n d heq
      cases heq
      exact ⟨hname, plain_of_fileName hname (nul_notMem_of_metadata source),
        hgot _ _ hname source ⟨size, rfl⟩⟩
  | written size name c same =>
      refine ⟨⟨by simp, ?_, by simp⟩, .hidden _ (.inl rfl) same⟩
      exact hok.opened
  | copied size name c same content =>
      obtain ⟨hname, hplain, hc⟩ := hok.opened size name c rfl
      refine ⟨⟨by simp, by simp, ?_⟩, .hidden _ (.inl rfl) same⟩
      rintro q n heq hn
      cases heq
      obtain rfl := Option.some.inj hn
      exact ⟨hname, hplain, c, hc, content⟩
  | passed q q' aims later fs_eq =>
      subst fs_eq
      refine ⟨⟨?_, by simp, ?_⟩, .hidden _ (.inl rfl) (hstay _)⟩
      · rintro size n heq
        exact absurd (AddPc.call.inj heq) (later size n)
      · rintro _ n heq hn
        obtain rfl := AddPc.call.inj heq
        exact hok.copied q n rfl (aims n hn)
  | renamed name r moved =>
      obtain ⟨-, hplain, c, hc, hentry⟩ := hok.copied _ name rfl rfl
      refine ⟨addOk_idle rfl (by simp), ?_⟩
      obtain ⟨d, hd, hfs⟩ := rename_plain (plain_tmpName stamp) hplain moved
      rw [hentry] at hd
      cases hd
      exact .placed name c hc hplain (.inr rfl) hfs
  | dropped q r q' ended same =>
      refine ⟨?_, .hidden _ (.inl rfl) same⟩
      rcases ended with rfl | rfl <;> exact addOk_idle rfl (by simp)

omit [HasLen C] [DecidableEq Hash] in
/-- **A step of a `pull`.** -/
lemma pullOk_stepped (hroot : node fs root = some .dir)
    (h : PullStepped k b root p fs fs' qc qc')
    (hgot : ∀ c hash name rest, safeName p.fileName = true → k.parseHash p.hash = some hash →
      b.collectionHash ((name, b.fileHash c) :: rest) = hash → qc = .fetching hash →
      got (ofStr p.fileName) c)
    (hok : PullOk k root p got fs qc) : PullOk k root p got fs' qc'
      ∧ Touched root (.pull p) got fs fs' (.pull qc) := by
  have hne : exportName p.exportStamp ≠ recvName p.recv := exportName_ne_recvName _ _
  cases h with
  | begun hash safe parsed same =>
      refine ⟨⟨?_, by simp, by simp⟩, .hidden _ (.inr ⟨_, rfl⟩) same⟩
      rintro hash' heq
      cases heq
      exact ⟨safe, parsed⟩
  | fetched hash c name rest stands fs_eq =>
      subst fs_eq
      obtain ⟨hsafe, hparse⟩ := hok.begun hash rfl
      refine ⟨⟨by simp, ?_, by simp⟩, .hidden _ (.inl rfl) (.refl _ _)⟩
      rintro d heq
      cases heq
      exact ⟨hsafe, hgot c hash name rest hsafe hparse stands rfl⟩
  | stored _ same =>
      refine ⟨⟨hok.begun, hok.fetched, fun c heq => ?_⟩, .hidden _ (.inr ⟨_, rfl⟩) same⟩
      rw [same.entry_eq _ hne]
      exact hok.exported c heq
  | written c same =>
      exact ⟨⟨by simp, hok.fetched, by simp⟩, .hidden _ (.inl rfl) same⟩
  | exported c same content =>
      obtain ⟨hsafe, hc⟩ := hok.fetched c rfl
      refine ⟨⟨by simp, by simp, ?_⟩, .hidden _ (.inl rfl) same⟩
      rintro d heq
      cases heq
      exact ⟨hsafe, hc, content⟩
  | renamed c moved =>
      obtain ⟨hsafe, hc, hentry⟩ := hok.exported c rfl
      refine ⟨⟨by simp, by simp, by simp⟩, ?_⟩
      obtain ⟨⟨e, he⟩, -⟩ | ⟨⟨hplain, -⟩, -⟩ := rename_hidden hroot
        (plain_exportName p.exportStamp) (not_visible_exportName p.exportStamp) hentry hsafe
      · rw [moved] at he
        cases he
      · obtain ⟨d, hd, hfs⟩ := rename_plain (plain_exportName p.exportStamp) hplain moved
        rw [hentry] at hd
        cases hd
        exact .placed _ c hc hplain (.inl (safeName_visible hsafe).2) hfs
  | failed _ e running fs_eq =>
      subst fs_eq
      exact ⟨⟨by simp, by simp, by simp⟩, .hidden _ (.inl rfl) (.refl _ _)⟩
  | refused e fs_eq =>
      subst fs_eq
      exact ⟨⟨by simp, by simp, by simp⟩, .hidden _ (.inl rfl) (.refl _ _)⟩

/-! ### What a step leaves alone -/

variable {writer : Writer} {stage : Stage C Hash}

omit [HasLen C] [DecidableEq Hash]

lemma Touched.root_eq (h : Touched root writer got fs fs' stage) :
    node fs' root = node fs root := by
  cases h with
  | hidden m own same => exact same.root_eq
  | placed n c hc plain aimed fs_eq =>
      rw [fs_eq, node_insert_of_ne _ _ (root_ne_child root n),
        node_erase_of_ne _ (root_ne_child root _)]

/-- The temp file of another writer is left alone, unless it has the name an `add` puts its
file under. -/
lemma Touched.staged_eq (h : Touched root writer got fs fs' stage) {other : Writer}
    (hne : other.staged ≠ writer.staged)
    (hfree : ∀ n, stage = .add (.call (.rename n)) → other.staged ≠ n) :
    entry fs' root other.staged = entry fs root other.staged := by
  cases h with
  | hidden m own same =>
      refine same.entry_eq _ ?_
      obtain hm | ⟨t, hm⟩ := own
      · rw [hm]
        exact hne
      · rw [hm]
        exact staged_ne_recvName other t
  | placed n c hc plain aimed fs_eq =>
      have hn : other.staged ≠ n := by
        rcases aimed with hv | haim
        · rintro rfl
          exact not_visible_staged other hv
        · exact hfree n haim
      rw [fs_eq, entry_insert_of_ne _ _ (by simpa using hn),
        entry_erase_of_ne _ (by simpa using hne)]

/-- A visible entry stays, or it now has what the writer had for it. -/
lemma Touched.visible (h : Touched root writer got fs fs' stage) {n : OsString}
    (hn : Visible n) : entry fs' root n = entry fs root n
      ∨ ∃ c, entry fs' root n = some (.file c) ∧ got n c := by
  have hstaged : n ≠ writer.staged := by
    rintro rfl
    exact not_visible_staged writer hn
  cases h with
  | hidden m own same =>
      refine .inl (same.entry_eq n ?_)
      obtain hm | ⟨t, hm⟩ := own
      · rw [hm]
        exact hstaged
      · intro heq
        rw [heq, hm] at hn
        exact not_visible_recvName t hn
  | placed m c hc plain aimed fs_eq =>
      by_cases hm : n = m
      · subst hm
        exact .inr ⟨c, by rw [fs_eq, entry_insert_self], hc⟩
      · refine .inl ?_
        rw [fs_eq, entry_insert_of_ne _ _ (by simpa using hm),
          entry_erase_of_ne _ (by simpa using hstaged)]

end Known

/-! ### Runs -/

/-- What a step does: a process ends, or a writer makes a move. -/
inductive Turn (w : Writing ι P C NodeId Sock Relay Hash) (s s' : Writers ι P C Hash) :
    WriterAct ι P C Hash → Prop
  | crashed (q : P) (fs_eq : s'.fs = s.fs)
      (stages : ∀ i, s'.stages i = s.stages i ∨ s'.stages i = (s.stages i).crash) :
      Turn w s s' (.crash q)
  | added (i : ι) (move : AddMove C) (src : PathBuf) (stamp : Stamp) (pc pc' : AddPc C)
      (writer : w.writers i = .add src stamp) (stage : s.stages i = .add pc)
      (stages : s'.stages = Function.update s.stages i (.add pc'))
      (stepped : AddStepped w.root src stamp s.fs s'.fs pc pc')
      (goes : move = .go ∨ s'.fs = s.fs ∨ ∀ n, pc ≠ .call (.rename n)) :
      Turn w s s' (.add i move)
  | pulled (i : ι) (move : PullMove C Hash) (p : PullCall) (pc pc' : PullPc C Hash)
      (writer : w.writers i = .pull p) (stage : s.stages i = .pull pc)
      (stages : s'.stages = Function.update s.stages i (.pull pc'))
      (stepped : PullStepped w.codec w.blobs w.root p s.fs s'.fs pc pc') :
      Turn w s s' (.pull i move)

section Turns

variable {w : Writing ι P C NodeId Sock Relay Hash} {s s' : Writers ι P C Hash}
  {a : WriterAct ι P C Hash} {i : ι} {fs₀ : FileSystem C}

/-- Only a rename that succeeds changes the tree at the rename. -/
lemma addStep_rename {root : AbsPath} {src : PathBuf} {stamp : Stamp} {fs : FileSystem C}
    {pc : AddPc C} {move : AddMove C} {o : AddPc C × FileSystem C}
    (h : addStep root src stamp fs pc move = some o) :
    move = .go ∨ o.2 = fs ∨ ∀ n, pc ≠ .call (.rename n) := by
  obtain ⟨pc', fs'⟩ := o
  cases addStep_moved h with
  | wrote | cut => exact .inr (.inr fun n => by simp)
  | copied | opened | called => exact .inl rfl
  | failed pc pc' e fault fs_eq => exact .inr (.inl fs_eq)

omit [DecidableEq Hash] in
lemma stepAdd_turn {src : PathBuf} {stamp : Stamp} {pc : AddPc C} {move : AddMove C}
    (hwriter : w.writers i = .add src stamp) (hstage : s.stages i = .add pc)
    (h : w.stepAdd s i src stamp pc move = some s') : Turn w s s' (.add i move) := by
  rw [Writing.stepAdd.eq_def] at h
  split at h
  · split_ifs at h
    obtain rfl := Option.some.inj h
    exact .added i _ src stamp _ _ hwriter hstage rfl
      (.passed _ _ (fun n hn => hn) (by simp) rfl) (.inl rfl)
  · obtain rfl := Option.some.inj h
    exact .added i _ src stamp _ _ hwriter hstage rfl
      (.dropped _ _ _ (.inr rfl) (.refl _ _)) (.inl rfl)
  · obtain ⟨o, ho, rfl⟩ := Option.map_eq_some_iff.mp h
    exact .added i _ src stamp _ _ hwriter hstage rfl (addStep_stepped ho) (addStep_rename ho)

/-- **What a step does.** -/
lemma step_turn (h : w.step s a = some s') : Turn w s s' a := by
  cases a with
  | crash q =>
      obtain rfl := Option.some.inj h
      refine .crashed q rfl fun i => ?_
      show ite _ _ _ = _ ∨ ite _ _ _ = _
      split_ifs
      · exact .inr rfl
      · exact .inl rfl
  | add i move =>
      rw [Writing.step] at h
      split at h
      · rename_i src stamp pc hwriter hstage
        exact stepAdd_turn hwriter hstage h
      · cases h
  | pull i move =>
      rw [Writing.step] at h
      split at h
      · rename_i p pc hwriter hstage
        obtain ⟨o, ho, rfl⟩ := Option.map_eq_some_iff.mp h
        exact .pulled i move p pc _ hwriter hstage rfl (pullStep_stepped ho)
      · cases h

/-- What writer `i` knows where it stands. -/
def Writing.Ok (w : Writing ι P C NodeId Sock Relay Hash) (got : OsString → C → Prop)
    (fs : FileSystem C) (i : ι) (stage : Stage C Hash) : Prop :=
  match w.writers i, stage with
  | .add src stamp, .add pc => AddOk w.root src stamp got fs pc
  | .pull p, .pull pc => PullOk w.codec w.root p got fs pc
  | _, .killed => True
  | _, _ => False

/-- Everybody knows what it should, and every visible entry is as before or complete; `got`
says which content a writer has had for a name. -/
structure Writing.Inv (w : Writing ι P C NodeId Sock Relay Hash) (fs₀ : FileSystem C)
    (got : ι → OsString → C → Prop) (s : Writers ι P C Hash) : Prop where
  root_dir : node s.fs w.root = some .dir
  stage : ∀ i, w.Ok (got i) s.fs i (s.stages i)
  visible : ∀ n, Visible n → entry s.fs w.root n = entry fs₀ w.root n
    ∨ ∃ i c, entry s.fs w.root n = some (.file c) ∧ got i n c

variable {got got' : ι → OsString → C → Prop}

omit [HasLen C] [DecidableEq ι] [DecidableEq P] [DecidableEq Hash]

lemma AddOk.mono {root : AbsPath} {src : PathBuf} {stamp : Stamp} {g g' : OsString → C → Prop}
    {fs fs' : FileSystem C} {pc : AddPc C} (h : AddOk root src stamp g fs pc)
    (hg : ∀ n c, g n c → g' n c)
    (hentry : (Stage.add pc : Stage C Hash).Staging →
      entry fs' root (tmpName stamp) = entry fs root (tmpName stamp)) :
    AddOk root src stamp g' fs' pc where
  named := h.named
  opened := fun size n c heq => by
    obtain ⟨hname, hplain, hc⟩ := h.opened size n c heq
    exact ⟨hname, hplain, hg n c hc⟩
  copied := fun q n heq hn => by
    obtain ⟨hname, hplain, c, hc, hcont⟩ := h.copied q n heq hn
    refine ⟨hname, hplain, c, hg n c hc, ?_⟩
    rw [hentry, hcont]
    rw [heq, Stage.Staging, hn]
    rfl

lemma PullOk.mono {k : Codec NodeId Sock Relay Hash} {root : AbsPath} {p : PullCall}
    {g g' : OsString → C → Prop} {fs fs' : FileSystem C} {pc : PullPc C Hash}
    (h : PullOk k root p g fs pc) (hg : ∀ n c, g n c → g' n c)
    (hentry : (Stage.pull pc).Staging →
      entry fs' root (exportName p.exportStamp) = entry fs root (exportName p.exportStamp)) :
    PullOk k root p g' fs' pc where
  begun := h.begun
  fetched := fun c heq => ⟨(h.fetched c heq).1, hg _ c (h.fetched c heq).2⟩
  exported := fun c heq => by
    obtain ⟨hsafe, hc, hcont⟩ := h.exported c heq
    refine ⟨hsafe, hg _ c hc, ?_⟩
    rw [hentry, hcont]
    rw [heq]
    trivial

lemma ok_add {g : OsString → C → Prop} {fs : FileSystem C} {src : PathBuf} {stamp : Stamp}
    {pc : AddPc C} (hwriter : w.writers i = .add src stamp) :
    w.Ok g fs i (.add pc : Stage C Hash) ↔ AddOk w.root src stamp g fs pc := by
  simp only [Writing.Ok, hwriter]

lemma ok_pull {g : OsString → C → Prop} {fs : FileSystem C} {p : PullCall} {pc : PullPc C Hash}
    (hwriter : w.writers i = .pull p) :
    w.Ok g fs i (.pull pc) ↔ PullOk w.codec w.root p g fs pc := by
  simp only [Writing.Ok, hwriter]

lemma ok_killed {g : OsString → C → Prop} {fs : FileSystem C} :
    w.Ok g fs i (.killed : Stage C Hash) := by
  cases hwriter : w.writers i <;> simp only [Writing.Ok, hwriter]

/-- What a writer knows is about its own temp file. -/
lemma ok_mono {g g' : OsString → C → Prop} {fs fs' : FileSystem C} {stage : Stage C Hash}
    (h : w.Ok g fs i stage) (hg : ∀ n c, g n c → g' n c)
    (hentry : stage.Staging →
      entry fs' w.root (w.writers i).staged = entry fs w.root (w.writers i).staged) :
    w.Ok g' fs' i stage := by
  cases hwriter : w.writers i with
  | add src stamp =>
      rw [hwriter] at hentry
      cases stage with
      | add pc =>
          rw [ok_add hwriter] at h ⊢
          exact h.mono hg hentry
      | pull pc => simp only [Writing.Ok, hwriter] at h
      | killed => exact ok_killed
  | pull p =>
      rw [hwriter] at hentry
      cases stage with
      | add pc => simp only [Writing.Ok, hwriter] at h
      | pull pc =>
          rw [ok_pull hwriter] at h ⊢
          exact h.mono hg hentry
      | killed => exact ok_killed

lemma Writing.Inv.mono (h : w.Inv fs₀ got s) (hg : ∀ i n c, got i n c → got' i n c) :
    w.Inv fs₀ got' s where
  root_dir := h.root_dir
  stage := fun i => ok_mono (h.stage i) (hg i) fun _ => rfl
  visible := fun n hn => (h.visible n hn).imp_right fun ⟨i, c, hc, hi⟩ => ⟨i, c, hc, hg i n c hi⟩

lemma ok_crash {g : OsString → C → Prop} {fs : FileSystem C} {stage : Stage C Hash}
    (h : w.Ok g fs i stage) : w.Ok g fs i stage.crash := by
  rw [Stage.crash.eq_def]
  split
  · exact h
  · exact h
  · exact ok_killed

variable [DecidableEq ι]

/-- A move that leaves the temp files of the others alone keeps the invariant. -/
lemma writing_touched {stage' : Stage C Hash}
    (hdist : ∀ i j, (w.writers i).staged = (w.writers j).staged → i = j)
    (h : w.Inv fs₀ got s) (hstages : s'.stages = Function.update s.stages i stage')
    (hok : w.Ok (got i) s'.fs i stage')
    (htouched : Touched w.root (w.writers i) (got i) s.fs s'.fs (s.stages i))
    (hfree : ∀ n, s.stages i = .add (.call (.rename n)) →
      ∀ j, j ≠ i → (s.stages j).Staging → (w.writers j).staged ≠ n) : w.Inv fs₀ got s' where
  root_dir := htouched.root_eq.trans h.root_dir
  stage := fun j => by
    rw [hstages]
    by_cases hj : j = i
    · subst hj
      rwa [Function.update_self]
    · rw [Function.update_of_ne hj]
      exact ok_mono (h.stage j) (fun _ _ hc => hc) fun hstaging =>
        htouched.staged_eq (fun heq => hj (hdist j i heq)) fun n hn => hfree n hn j hj hstaging
  visible := fun n hn => by
    obtain hsame | ⟨c, hc, hgot⟩ := htouched.visible hn
    · rw [hsame]
      exact h.visible n hn
    · exact .inr ⟨i, c, hc, hgot⟩

variable [HasLen C] [DecidableEq P] [DecidableEq Hash]

/-- **One step.**  A step that does not clobber a temp file keeps the invariant. -/
lemma writing_step (hdist : ∀ i j, (w.writers i).staged = (w.writers j).staged → i = j)
    (hgot : ∀ i n c, w.Supplies i n c s → got i n c) (h : w.Inv fs₀ got s)
    (hclear : ¬ w.Clobbers s a) (hs : w.step s a = some s') : w.Inv fs₀ got s' := by
  cases step_turn hs with
  | crashed q fs_eq stages =>
      refine ⟨fs_eq ▸ h.root_dir, fun i => ?_, fs_eq ▸ h.visible⟩
      rw [fs_eq]
      rcases stages i with heq | heq
      · rw [heq]
        exact h.stage i
      · rw [heq]
        exact ok_crash (h.stage i)
  | added i move src stamp pc pc' writer stage stages stepped goes =>
      have hi := h.stage i
      rw [stage, ok_add writer] at hi
      have hsupplies : ∀ n c, fileName src = some n → metadata s.fs src = .ok (.file c) →
          (∃ size, pc = .call (.copy size n)) → got i n c := by
        rintro n c hname hmeta ⟨size, rfl⟩
        refine hgot i n c ?_
        rw [Writing.Supplies, writer]
        exact ⟨hname, hmeta, size, stage⟩
      obtain ⟨hok, htouched⟩ := addOk_stepped Hash stepped hsupplies hi
      rw [← ok_add writer] at hok
      rw [← writer, ← stage] at htouched
      by_cases hgo : s'.fs = s.fs
      · refine ⟨hgo ▸ h.root_dir, fun j => ?_, hgo ▸ h.visible⟩
        rw [stages]
        by_cases hj : j = i
        · subst hj
          rwa [Function.update_self]
        · rw [Function.update_of_ne hj, hgo]
          exact h.stage j
      · refine writing_touched hdist h stages hok htouched fun n hn j hj hstaging heq => ?_
        rcases goes with rfl | hsame | hne
        · exact hclear ⟨i, j, n, rfl, hn, hj, hstaging, heq⟩
        · exact hgo hsame
        · rw [stage] at hn
          exact hne n (Stage.add.inj hn)
  | pulled i move p pc pc' writer stage stages stepped =>
      have hi := h.stage i
      rw [stage, ok_pull writer] at hi
      have hsupplies : ∀ c hash name rest, safeName p.fileName = true →
          w.codec.parseHash p.hash = some hash →
          w.blobs.collectionHash ((name, w.blobs.fileHash c) :: rest) = hash →
          pc = .fetching hash → got i (ofStr p.fileName) c := by
        rintro c hash name rest hsafe hparse hstands rfl
        refine hgot i _ c ?_
        rw [Writing.Supplies, writer]
        exact ⟨hsafe, rfl, hash, name, rest, hparse, hstands, stage⟩
      obtain ⟨hok, htouched⟩ := pullOk_stepped h.root_dir stepped hsupplies hi
      rw [← ok_pull writer] at hok
      rw [← writer, ← stage] at htouched
      refine writing_touched hdist h stages hok htouched fun n hn => ?_
      rw [stage] at hn
      cases hn

omit [DecidableEq ι] [HasLen C] [DecidableEq P] [DecidableEq Hash] in
lemma writing_init (hroot : node fs₀ w.root = some .dir) : w.Inv fs₀ got (w.init fs₀) where
  root_dir := hroot
  stage := fun i => by
    show w.Ok (got i) fs₀ i (w.writers i).fresh
    cases hwriter : w.writers i with
    | add src stamp =>
        rw [Writer.fresh, ok_add hwriter]
        exact addOk_idle rfl (by simp)
    | pull p =>
        rw [Writer.fresh, ok_pull hwriter]
        exact ⟨by simp, by simp, by simp⟩
  visible := fun n _ => .inl rfl

/-- **A run.**  As long as nobody clobbers a temp file the invariant holds, with the content
that the writers have had during the run. -/
lemma writing_run (hdist : ∀ i j, (w.writers i).staged = (w.writers j).staged → i = j)
    (hroot : node fs₀ w.root = some .dir) {as : List (WriterAct ι P C Hash)}
    (hclear : ∀ done a t t', done ++ [a] <+: as → exec w.step (w.init fs₀) done = some t →
      w.Inv fs₀ (fun i n c => Sometime w.step (w.Supplies i n c) (w.init fs₀) done) t →
      w.step t a = some t' → ¬ w.Clobbers t a)
    (hrun : exec w.step (w.init fs₀) as = some s) :
    w.Inv fs₀ (fun i n c => Sometime w.step (w.Supplies i n c) (w.init fs₀) as) s := by
  refine history_invariant
    (I := fun done t => w.Inv fs₀
      (fun i n c => Sometime w.step (w.Supplies i n c) (w.init fs₀) done) t)
    (writing_init hroot) (fun done a t t' hpre hdone hI ha => ?_) hrun
  have hnext := writing_step hdist (fun i n c hc => Sometime.now hdone hc) hI
    (hclear done a t t' hpre hdone hI ha) ha
  exact hnext.mono fun i n c hc => hc.mono (List.prefix_append done [a])

omit [DecidableEq ι] [HasLen C] [DecidableEq P] [DecidableEq Hash] in
/-- Sources with visible names never get in the way. -/
lemma not_clobbers (h : w.Inv fs₀ got s)
    (hshown : ∀ i src stamp n, w.writers i = .add src stamp → fileName src = some n → Visible n) :
    ¬ w.Clobbers s a := by
  rintro ⟨i, j, n, -, hstage, -, -, rfl⟩
  have hi := h.stage i
  cases hwriter : w.writers i with
  | add src stamp =>
      rw [hstage, ok_add hwriter] at hi
      obtain ⟨hname, -, -⟩ := hi.copied _ _ rfl rfl
      exact not_visible_staged _ (hshown i src stamp _ hwriter hname)
  | pull p => simp only [hstage, Writing.Ok, hwriter] at hi

/-- **Visible files are whole.**  However many adds and pulls with different temp names are
interleaved, and whenever processes end: while no `add` puts its file under a temp name that
another writer is using, every visible file is as before, or the whole content that some
writer had for that name. -/
theorem visible_complete (w : Writing ι P C NodeId Sock Relay Hash) {fs₀ : FileSystem C}
    (hdist : ∀ i j, (w.writers i).staged = (w.writers j).staged → i = j)
    (hroot : node fs₀ w.root = some .dir) {as : List (WriterAct ι P C Hash)}
    {s : Writers ι P C Hash} (hrun : exec w.step (w.init fs₀) as = some s)
    (hclear : ∀ t ∈ trace w.step (w.init fs₀) as, ¬ w.Clobbers t.1 t.2.1) :
    ∀ n, Visible n → w.Complete fs₀ as s.fs n := by
  have h := writing_run hdist hroot (fun done a t t' hpre hdone _ ha =>
    hclear _ (mem_trace hpre hdone ha)) hrun
  exact h.visible

/-- In a run with visible source names no temp file is clobbered. -/
lemma clear_of_shown (hdist : ∀ i j, (w.writers i).staged = (w.writers j).staged → i = j)
    (hroot : node fs₀ w.root = some .dir)
    (hshown : ∀ i src stamp n, w.writers i = .add src stamp → fileName src = some n → Visible n)
    {as : List (WriterAct ι P C Hash)} :
    ∀ t ∈ trace w.step (w.init fs₀) as, ¬ w.Clobbers t.1 t.2.1 := by
  intro t ht
  obtain ⟨done, rest, -, hdone, -⟩ := exists_of_mem_trace ht
  have h := writing_run hdist hroot (fun _ _ _ _ _ _ hI _ => not_clobbers hI hshown) hdone
  exact not_clobbers h hshown

/-- **The check of `pull` would do.**  If no source has a name that begins with a dot then
every visible file is whole in every run. -/
theorem visible_complete_of_shown (w : Writing ι P C NodeId Sock Relay Hash)
    {fs₀ : FileSystem C}
    (hdist : ∀ i j, (w.writers i).staged = (w.writers j).staged → i = j)
    (hroot : node fs₀ w.root = some .dir)
    (hshown : ∀ i src stamp n, w.writers i = .add src stamp → fileName src = some n → Visible n)
    {as : List (WriterAct ι P C Hash)} {s : Writers ι P C Hash}
    (hrun : exec w.step (w.init fs₀) as = some s) :
    ∀ n, Visible n → w.Complete fs₀ as s.fs n := by
  have h := writing_run hdist hroot (fun _ _ _ _ _ _ hI _ => not_clobbers hI hshown) hrun
  exact h.visible

end Turns

/-! ### An `add` in between -/

/-- A store, and next to it a file with the given name. -/
def besideStore (name : OsString) : FileSystem (List UInt8) :=
  (AList.insert [ofStr "store"] .dir ∅).insert [name] (.file [9])

/-- An offer of the file `a` with the content 1. -/
def offerA : PullCall where
  hash := textBlobs.collectionHash [("a", textBlobs.fileHash [1])]
  fileName := "a"
  recv := ⟨1, 1⟩
  exportStamp := ⟨1, 2⟩

/-- In one process: that file is added, and the offer is pulled. -/
def addAndPull (name : OsString) : Writing Bool Unit (List UInt8) String String String String where
  codec := textCodec
  blobs := textBlobs
  root := [ofStr "store"]
  process := fun _ => ()
  writers := fun i => if i then .add ⟨[], name⟩ ⟨1, 3⟩ else .pull offerA

lemma staged_addAndPull (name : OsString) : ∀ i j,
    ((addAndPull name).writers i).staged = ((addAndPull name).writers j).staged → i = j := by
  have hne : tmpName ⟨1, 3⟩ ≠ exportName ⟨1, 2⟩ := by decide
  rintro (_ | _) (_ | _) h
  · rfl
  · exact absurd h.symm hne
  · exact absurd h hne
  · rfl

/-- The `add` dies in its copy, the `pull` of a later process goes through. -/
def diesInCopy : List (WriterAct Bool Unit (List UInt8) String) :=
  [.add true .go, .add true .go, .add true (.chunk []), .crash (), .pull false .go,
    .pull false (.fetched "a" [] [1]), .pull false (.chunk []), .pull false .go,
    .pull false .go]

theorem diesInCopy_complete : ∃ s,
    exec (addAndPull (ofStr "b")).step ((addAndPull (ofStr "b")).init (besideStore (ofStr "b")))
        diesInCopy = some s
      ∧ entry s.fs [ofStr "store"] (ofStr "a") = some (.file [1])
      ∧ ∀ n, Visible n → (addAndPull (ofStr "b")).Complete (besideStore (ofStr "b")) diesInCopy
        s.fs n := by
  have hrun : (exec (addAndPull (ofStr "b")).step
      ((addAndPull (ofStr "b")).init (besideStore (ofStr "b"))) diesInCopy).map
      (fun s => entry s.fs [ofStr "store"] (ofStr "a")) = some (some (.file [1])) := by decide
  obtain ⟨s, hs, hentry⟩ := Option.map_eq_some_iff.mp hrun
  refine ⟨s, hs, hentry, visible_complete _ (staged_addAndPull _) (by decide) hs
    (clear_of_shown (staged_addAndPull _) (by decide) ?_)⟩
  rintro (_ | _) src stamp n hwriter hname
  · cases hwriter
  · cases hwriter
    obtain rfl : ofStr "b" = n :=
      Option.some.inj ((by decide : _ = some (ofStr "b")).symm.trans hname)
    decide

/-- The `add` finds its name free, the `pull` exports its file under that very name, and the
`add` renames its own file there. -/
def inBetween : List (WriterAct Bool Unit (List UInt8) String) :=
  [.add true .go, .add true .go, .add true .go, .add true .go, .add true .go, .add true .go,
    .add true .go, .add true .go, .pull false .go, .pull false (.fetched "a" [] [1]),
    .pull false .go, .add true .go, .pull false .go]

/-- **An `add` gets in between.**  A source that has the temp name of a `pull` ends up under the
name of the offer, which nobody had that content for. -/
theorem export_overwritten :
    (∀ i j, ((addAndPull (exportName ⟨1, 2⟩)).writers i).staged
      = ((addAndPull (exportName ⟨1, 2⟩)).writers j).staged → i = j)
    ∧ ∃ s, exec (addAndPull (exportName ⟨1, 2⟩)).step
          ((addAndPull (exportName ⟨1, 2⟩)).init (besideStore (exportName ⟨1, 2⟩))) inBetween
          = some s
        ∧ entry s.fs [ofStr "store"] (ofStr "a") = some (.file [9])
        ∧ Visible (ofStr "a")
        ∧ ¬ (addAndPull (exportName ⟨1, 2⟩)).Complete (besideStore (exportName ⟨1, 2⟩)) inBetween
          s.fs (ofStr "a") := by
  have hrun : (exec (addAndPull (exportName ⟨1, 2⟩)).step
      ((addAndPull (exportName ⟨1, 2⟩)).init (besideStore (exportName ⟨1, 2⟩))) inBetween).map
      (fun s => entry s.fs [ofStr "store"] (ofStr "a")) = some (some (.file [9])) := by decide
  obtain ⟨s, hs, hentry⟩ := Option.map_eq_some_iff.mp hrun
  refine ⟨staged_addAndPull _, s, hs, hentry, by decide, ?_⟩
  have hroot : (addAndPull (exportName ⟨1, 2⟩)).root = [ofStr "store"] := rfl
  rintro (hsame | ⟨i, c, hc, done, t, -, -, hsupplies⟩)
  · have hold : entry (besideStore (exportName ⟨1, 2⟩)) [ofStr "store"] (ofStr "a") = none := by
      decide
    rw [hroot, hentry, hold] at hsame
    cases hsame
  · rw [hroot, hentry] at hc
    cases hc
    cases i with
    | true =>
        have hname : fileName ⟨[], exportName ⟨1, 2⟩⟩ = some (ofStr "a") := hsupplies.1
        exact absurd hname (by decide)
    | false =>
        obtain ⟨-, -, hash, name, rest, hparse, hstands, -⟩ := hsupplies
        have hhash : textBlobs.collectionHash [("a", textBlobs.fileHash [1])] = hash :=
          Option.some.inj hparse
        have hlist := collectionHash_textBlobs_injective (hstands.trans hhash.symm)
        have hfile := congrArg Prod.snd (List.cons.inj hlist).1
        exact absurd (fileHash_textBlobs_injective hfile) (by decide)

end Dddatasync
