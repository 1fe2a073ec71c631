import Dddatasync.StoreLosses

/-!
The store under concurrent calls is linearizable.

* `Counting`: whether the store was full when a call read its directory is settled then, and the
  call finds out later.
* `Told`: the invariant; `Told.full`, `Told.count`, `Told.passed`: the steps of a call that finds
  the store full, of one that goes on, and of one that takes the mutex or gives it back.
* `store_linearizable`: the histories have an order, and no call fails with `io` for nothing.
-/

namespace Dddatasync

open Fs OsString Runs

variable {C : Type*} [HasLen C] {root : AbsPath} {fs₀ fs fs' : FileSystem C} {ι : Type*} {i : ι}
  {call : Call} {pc pc' : Pc}

/-! ### The invariant -/

/-- What a call answers that found the store full. -/
def Call.foundFull (call : Call) : Progress Call (Except StoreError Unit) :=
  .done call (.error (.full maxFiles maxFiles))

/-- Of every call that counts it is known whether it has room or was too late when it read the
directory; in the second case the history may have its answer already. -/
def Counting (root : AbsPath) (calls : ι → Call) (s : Threads ι C)
    (ahead : ι → Progress Call (Except StoreError Unit) → Prop) : Prop :=
  ∀ i target pending found, s.pcs i = .count target pending found → pending.Nodup
    ∧ reach root s.fs pending found ≤ maxFiles
    ∧ (reach root s.fs pending found < maxFiles ∨ ahead i (calls i).foundFull)

/-- The history `h` of the calls tells what they did to the store. -/
structure Told (root : AbsPath) (calls : ι → Call) (fs₀ : FileSystem C) (s : Threads ι C)
    (h : List (CallEvent ι Call (Except StoreError Unit)))
    (ahead : ι → Progress Call (Except StoreError Unit) → Prop) [DecidableEq ι] : Prop where
  foretold : Foretold (storeSpec root fs₀) (shown root fs₀) (fun i => (s.pcs i).progress (calls i))
    ahead h (shown root s.fs)
  holder : ∀ i q, ahead i q → s.mutex = some i
  counting : Counting root calls s ahead
  fresh : ∀ i op, .call i op ∈ h → s.pcs i ≠ .start
  sized : ∀ i, SizeOk (calls i) (s.pcs i)

variable [DecidableEq ι] {calls : ι → Call} {s s' : Threads ι C}
  {h : List (CallEvent ι Call (Except StoreError Unit))}
  {ahead : ι → Progress Call (Except StoreError Unit) → Prop}

lemma told_begin : Told root calls fs₀ (begin fs₀) [] fun _ _ => False where
  foretold := .start
  holder := fun _ _ hq => hq.elim
  counting := fun _ _ _ _ hpc => by cases hpc
  fresh := fun _ _ hop => by cases hop
  sized := fun i => by
    show SizeOk (calls i) .start
    cases calls i <;> trivial

/-- **A step of call `i`**, whatever it does with the mutex. -/
lemma Told.moved (hT : Told root calls fs₀ s h ahead)
    {A : Progress Call (Except StoreError Unit) → Prop}
    {q : Progress Call (Except StoreError Unit)}
    (hpcs : s'.pcs = Function.update s.pcs i (s'.pcs i))
    (hq : q = (s.pcs i).progress (calls i) ∨ ahead i q)
    (hmove : q.Moves (storeSpec root fs₀) i (shown root s.fs)
      (events i (calls i) (s.pcs i) (s'.pcs i)) ((s'.pcs i).progress (calls i))
      (shown root s'.fs))
    (hA : ∀ r', A r' → s'.mutex = some i ∧ ∃ r, (r = (s.pcs i).progress (calls i) ∨ ahead i r)
      ∧ r.Moves (storeSpec root fs₀) i (shown root s.fs)
        (events i (calls i) (s.pcs i) (s'.pcs i)) r' (shown root s'.fs))
    (hothers : ∀ j, j ≠ i → s.mutex = some j →
      s'.mutex = some j ∧ q = (s.pcs i).progress (calls i))
    (hcounting : Counting root calls s' (Function.update ahead i A))
    (hstart : s'.pcs i ≠ .start) (hsized : SizeOk (calls i) (s'.pcs i)) :
    Told root calls fs₀ s' (h ++ events i (calls i) (s.pcs i) (s'.pcs i))
      (Function.update ahead i A) := by
  have hne : ∀ {j}, j ≠ i → s'.pcs j = s.pcs j := by
    intro j hj
    rw [hpcs, Function.update_of_ne hj]
  have hprogress : (fun j => (s'.pcs j).progress (calls j))
      = Function.update (fun j => (s.pcs j).progress (calls j)) i
          ((s'.pcs i).progress (calls i)) := by
    funext j
    by_cases hj : j = i
    · subst hj
      rw [Function.update_self]
    · rw [Function.update_of_ne hj, hne hj]
  refine ⟨?_, fun j r hr => ?_, hcounting, fun j op hop => ?_, fun j => ?_⟩
  · rw [hprogress]
    refine hT.foretold.step hq hmove (fun r' hr' => (hA r' hr').2) ?_ ?_
    · by_cases hall : ∀ j ≠ i, ∀ r, ¬ ahead j r
      · exact .inr hall
      · push Not at hall
        obtain ⟨j, hj, r, hr⟩ := hall
        exact .inl (hothers j hj (hT.holder j r hr)).2
    · rintro ⟨op, hop⟩ op' hop'
      exact hT.fresh i op' hop' (call_mem_events.mp hop).2.2
  · by_cases hj : j = i
    · subst hj
      rw [Function.update_self] at hr
      exact (hA r hr).1
    · rw [Function.update_of_ne hj] at hr
      exact (hothers j hj (hT.holder j r hr)).1
  · by_cases hj : j = i
    · rw [hj]
      exact hstart
    · rw [hne hj]
      rcases List.mem_append.mp hop with hop | hop
      · exact hT.fresh j op hop
      · exact absurd (call_mem_events.mp hop).1 hj
  · by_cases hj : j = i
    · rw [hj]
      exact hsized
    · rw [hne hj]
      exact hT.sized j

/-- The other calls that count, after a step of call `i` that only takes files away. -/
lemma Counting.others (hc : Counting root calls s ahead)
    {A : Progress Call (Except StoreError Unit) → Prop}
    (hpcs : s'.pcs = Function.update s.pcs i (s'.pcs i))
    (hshrinks : ∀ j, j ≠ i → (s.pcs j).Holding → Shrinks root s.fs s'.fs)
    (hself : ∀ target pending found, s'.pcs i = .count target pending found → pending.Nodup
      ∧ reach root s'.fs pending found ≤ maxFiles
      ∧ (reach root s'.fs pending found < maxFiles ∨ A (calls i).foundFull)) :
    Counting root calls s' (Function.update ahead i A) := by
  intro j target pending found hpc
  by_cases hj : j = i
  · subst hj
    rw [Function.update_self]
    exact hself target pending found hpc
  · rw [hpcs, Function.update_of_ne hj] at hpc
    rw [Function.update_of_ne hj]
    obtain ⟨hnodup, hle, hroom⟩ := hc j target pending found hpc
    have hreach := reach_shrinks (hshrinks j hj (by rw [hpc]; trivial)) pending found
    exact ⟨hnodup, hreach.trans hle, hroom.imp_left hreach.trans_lt⟩

variable [Fintype ι]

/-- A store that is full when the directory is read refuses the call. -/
lemma refuses_full (hw : WithinLimits root fs) (hfull : maxFiles ≤ fileCount root fs) {size : ℕ}
    {target : Option OsString} (haims : Aims root fs₀ fs size call target) :
    (shown root fs).Refuses root fs₀ call (.full maxFiles maxFiles) := by
  have hcount : maxFiles = (shown root fs).count := by
    rw [count_shown]
    exact le_antisymm hfull hw.count
  match call, target, haims with
  | .add src stamp, some n, _ => exact ⟨hcount, rfl, le_rfl⟩
  | .canAdd size, none, _ => exact ⟨hcount, rfl, le_rfl⟩

/-- A call finds the store full at the end of its count: its answer is in the history already. -/
lemma Told.full (hT : Told root calls fs₀ s h ahead) (hI : Inv root calls fs₀ s)
    {target : Option OsString} {found : List FileEntry}
    (hpc : s.pcs i = .count target [] found) (hfull : maxFiles ≤ found.length) :
    Told root calls fs₀ (s.after i { pc := endCheck target found, fs := s.fs })
      (h ++ events i (calls i) (s.pcs i) (endCheck target found))
      (Function.update ahead i fun _ => False) := by
  have hend : endCheck target found = refuse target (.full found.length maxFiles) := by
    rw [endCheck, if_pos hfull]
  obtain ⟨-, hle, hroom⟩ := hT.counting i _ _ _ hpc
  rw [reach_nil] at hle hroom
  have hlen : found.length = maxFiles := le_antisymm hle hfull
  have hahead := hroom.resolve_left (not_lt.mpr hfull)
  have hmutex : s.mutex = some i := (hI.mutex i).mp (by rw [hpc]; trivial)
  rw [hlen] at hend
  have hpc' : (s.after i { pc := endCheck target found, fs := s.fs }).pcs i
      = refuse target (.full maxFiles maxFiles) := by
    rw [pcs_after_self, hend]
  rw [hend]
  rw [hend] at hpc'
  have hstep : Told root calls fs₀
      (s.after i { pc := refuse target (.full maxFiles maxFiles), fs := s.fs })
      (h ++ events i (calls i) (s.pcs i) ((s.after i
        { pc := refuse target (.full maxFiles maxFiles), fs := s.fs }).pcs i))
      (Function.update ahead i fun _ => False) := by
    refine hT.moved (by rw [pcs_after_self]; rfl) (.inr hahead) ?_ (fun _ hr => hr.elim) ?_ ?_ ?_ ?_
    · rw [hpc', hpc, progress_refuse, events_silent (by simp) (by cases target <;> rfl)]
      exact .wait _ _
    · intro j hj hm
      rw [hmutex] at hm
      exact absurd (Option.some.inj hm).symm hj
    · refine hT.counting.others (by rw [pcs_after_self]; rfl)
        (fun j _ _ => (SameVisible.refl s.fs).shrinks) fun target' pending found' heq => ?_
      rw [hpc'] at heq
      cases target <;> cases heq
    · rw [hpc']
      cases target <;> simp [refuse]
    · rw [hpc']
      cases target <;> cases calls i <;> trivial
  rwa [hpc'] at hstep

/-- A call goes on, and perhaps begins to count or looks at one more name: when it has read the
directory of a full store, its answer is in one of the histories. -/
lemma Told.count (hT : Told root calls fs₀ s h ahead) (hI : Inv root calls fs₀ s) {o : Next C}
    (hadv : Advanced root fs₀ s.fs (calls i) (s.pcs i) o)
    (htells : Tells root fs₀ s.fs i (calls i) (s.pcs i) o)
    (hcounted : ∀ target pending found, o.pc = .count target pending found →
      CountedFrom root s.fs (s.pcs i) target pending found)
    (hquiet : ∀ {target pending found}, CountedFrom root s.fs (s.pcs i) target pending found →
      o.fs = s.fs ∧ s.pcs i ≠ .start ∧ (s.pcs i).result = none ∧ (s.pcs i).Holding
        ∧ (s.pcs i).progress (calls i) = .pending (calls i))
    (hstart : o.pc ≠ .start) (hsized : SizeOk (calls i) o.pc) :
    Told root calls fs₀ (s.after i o) (h ++ events i (calls i) (s.pcs i) o.pc)
      (Function.update ahead i fun q => q = (calls i).foundFull
        ∧ (∃ target pending found, o.pc = .count target pending found)
        ∧ ((∃ size target, s.pcs i = .check size target) ∧ maxFiles ≤ fileCount root s.fs
          ∨ ahead i q)) := by
  have hstep : Told root calls fs₀ (s.after i o)
      (h ++ events i (calls i) (s.pcs i) ((s.after i o).pcs i))
      (Function.update ahead i fun q => q = (calls i).foundFull
        ∧ (∃ target pending found, o.pc = .count target pending found)
        ∧ ((∃ size target, s.pcs i = .check size target) ∧ maxFiles ≤ fileCount root s.fs
          ∨ ahead i q)) := by
    refine hT.moved (by rw [pcs_after_self]; rfl) (.inl rfl) ?_ ?_ (fun j _ hm => ⟨hm, rfl⟩)
      ?_ ?_ ?_
    · rw [pcs_after_self]
      exact htells
    · rintro _ ⟨rfl, ⟨target, pending, found, hpc⟩, hwhy⟩
      obtain ⟨hfs, hne, hresult, hholding, hpending⟩ := hquiet (hcounted _ _ _ hpc)
      refine ⟨(hI.mutex i).mp hholding, ?_⟩
      rw [pcs_after_self, hpc, events_silent hne (by rw [hresult]; rfl)]
      show ∃ r, _ ∧ Progress.Moves _ _ _ (shown root s.fs) _ _ (shown root o.fs)
      rw [hfs]
      rcases hwhy with ⟨⟨size, target', hcheck⟩, hfull⟩ | hahead
      · -- the store is full: the answer is settled here
        have htask := hI.task i
        rw [hcheck, taskOk_check] at htask
        exact ⟨_, .inl rfl, hpending ▸ .commit ⟨rfl, refuses_full hI.limits hfull htask⟩⟩
      · exact ⟨_, .inr hahead, .wait _ _⟩
    · refine hT.counting.others (by rw [pcs_after_self]; rfl)
        (fun j hj hold => hI.shrinks hadv hj hold) fun target pending found hpc => ?_
      rw [pcs_after_self] at hpc
      have hfrom := hcounted _ _ _ hpc
      show _ ∧ reach root o.fs _ _ ≤ _ ∧ (reach root o.fs _ _ < _ ∨ _)
      rw [(hquiet hfrom).1]
      rcases hfrom with ⟨size, hcheck, rfl, rfl⟩ | ⟨n, found₀, hcount, hreach⟩
      · refine ⟨nodup_names s.fs root, reach_all root s.fs ▸ hI.limits.count, ?_⟩
        rw [reach_all]
        rcases lt_or_ge (fileCount root s.fs) maxFiles with hlt | hge
        · exact .inl hlt
        · exact .inr ⟨rfl, ⟨_, _, _, hpc⟩, .inl ⟨⟨size, target, hcheck⟩, hge⟩⟩
      · obtain ⟨hnodup, hle, hroom⟩ := hT.counting i _ _ _ hcount
        obtain ⟨hnot, hnodup⟩ := List.nodup_cons.mp hnodup
        rw [hreach hnot] at hle hroom
        exact ⟨hnodup, hle, hroom.imp_right fun hahead => ⟨rfl, ⟨_, _, _, hpc⟩, .inr hahead⟩⟩
    · rw [pcs_after_self]
      exact hstart
    · rw [pcs_after_self]
      exact hsized
  rwa [pcs_after_self] at hstep

/-- **A step of a call** that leaves the mutex alone. -/
lemma Told.advanced (hT : Told root calls fs₀ s h ahead) (hI : Inv root calls fs₀ s)
    (hleg : (calls i).Legal) (hsrc : (calls i).SourceSame fs₀ s.fs)
    (hlock : ∀ size target, s.pcs i ≠ .lock size target) (hunlock : ∀ r, s.pcs i ≠ .unlock r) :
    ∃ ahead, Told root calls fs₀ (s.after i (advance root s.fs (calls i) (s.pcs i)))
      (h ++ events i (calls i) (s.pcs i) (advance root s.fs (calls i) (s.pcs i)).pc) ahead := by
  by_cases hfull : ∃ target found, s.pcs i = .count target [] found ∧ maxFiles ≤ found.length
  · obtain ⟨target, found, hpc, hfull⟩ := hfull
    have ht := hT.full hI hpc hfull
    rw [hpc] at ht
    rw [hpc, advance_count_nil]
    exact ⟨_, ht⟩
  · have htask := hI.task i
    have hadv := advance_spec hI.root_dir hleg hsrc htask
    have hfollows := follows_advance hI.root_dir htask
    have htells : Tells root fs₀ s.fs i (calls i) (s.pcs i)
        (advance root s.fs (calls i) (s.pcs i)) :=
      tells_advance hI.root_dir hleg hsrc htask (hT.sized i) hlock hunlock
        fun target found hpc => lt_of_not_ge fun hge => hfull ⟨target, found, hpc, hge⟩
    have hcounted := hfollows.counted
    have hquiet : ∀ {target pending found}, CountedFrom root s.fs (s.pcs i) target pending found →
        (advance root s.fs (calls i) (s.pcs i)).fs = s.fs ∧ s.pcs i ≠ .start
          ∧ (s.pcs i).result = none ∧ (s.pcs i).Holding
          ∧ (s.pcs i).progress (calls i) = .pending (calls i) := CountedFrom.fs_eq
    generalize advance root s.fs (calls i) (s.pcs i) = o at *
    exact ⟨_, hT.count hI hadv htells hcounted hquiet hfollows.ne_start
      (hfollows.sized (hT.sized i))⟩

omit [Fintype ι] in
/-- A call takes the mutex, or gives it back. -/
lemma Told.passed (hT : Told root calls fs₀ s h ahead) (mutex : Option ι)
    (hmove : ((s.pcs i).progress (calls i)).Moves (storeSpec root fs₀) i (shown root s.fs)
      (events i (calls i) (s.pcs i) pc') (pc'.progress (calls i)) (shown root s.fs))
    (hothers : ∀ j, j ≠ i → s.mutex ≠ some j)
    (hcount : ∀ target pending found, pc' ≠ .count target pending found) (hstart : pc' ≠ .start)
    (hsized : SizeOk (calls i) pc') :
    Told root calls fs₀ { s with mutex := mutex, pcs := Function.update s.pcs i pc' }
      (h ++ events i (calls i) (s.pcs i) pc') (Function.update ahead i fun _ => False) := by
  let t : Threads ι C := { s with mutex := mutex, pcs := Function.update s.pcs i pc' }
  have hpc' : t.pcs i = pc' := Function.update_self i pc' s.pcs
  have hstep : Told root calls fs₀ t (h ++ events i (calls i) (s.pcs i) (t.pcs i))
      (Function.update ahead i fun _ => False) := by
    refine hT.moved (by rw [hpc']) (.inl rfl) ?_ (fun _ hr => hr.elim)
      (fun j hj hm => absurd hm (hothers j hj)) ?_ (hpc' ▸ hstart) (hpc' ▸ hsized)
    · rw [hpc']
      exact hmove
    · refine hT.counting.others (by rw [hpc'])
        (fun _ _ _ => (SameVisible.refl s.fs).shrinks) fun _ _ _ heq => ?_
      rw [hpc'] at heq
      exact absurd heq (hcount _ _ _)
  rwa [hpc'] at hstep

/-- **One step of the calls.** -/
lemma Told.next (hT : Told root calls fs₀ s h ahead) (hI : Inv root calls fs₀ s)
    (hleg : ∀ i, (calls i).Legal) (hsrc : ∀ i, (calls i).SourceSame fs₀ s.fs) (i : ι) :
    ∃ ahead, Told root calls fs₀ (step root calls s i)
      (h ++ events i (calls i) (s.pcs i) ((step root calls s i).pcs i)) ahead := by
  obtain ⟨size, target, hpc, hs'⟩ | ⟨size, target, hpc, hfree, hs'⟩ | ⟨r, hpc, hs'⟩
      | ⟨hlock, hunlock, hs'⟩ := threadStep_cases root calls s i
  · refine ⟨ahead, ?_⟩
    rw [hs', events_silent (by simp [hpc]) rfl, List.append_nil]
    exact hT
  · have hsized : SizeOk (calls i) (.check size target) := by
      have hlock := hT.sized i
      rw [hpc] at hlock
      cases hcall : calls i <;> rw [hcall] at hlock <;> exact hlock
    have hpc' : (step root calls s i).pcs i = .check size target := by
      rw [hs']
      exact Function.update_self _ _ _
    have hsilent : events i (calls i) (.lock size target) (.check size target) = [] :=
      events_silent (by simp) rfl
    rw [hpc', hs']
    refine ⟨_, hT.passed (some i) ?_ (by simp [hfree]) (by simp) (by simp) hsized⟩
    rw [hpc, hsilent]
    exact .wait _ _
  · have hmutex : s.mutex = some i := (hI.mutex i).mp (by rw [hpc]; trivial)
    have hpc' : (step root calls s i).pcs i = .done r := by
      rw [hs']
      exact Function.update_self _ _ _
    rw [hpc', hs']
    refine ⟨_, hT.passed none ?_ (fun j hj => ?_) (by simp) (by simp)
      (by cases calls i <;> trivial)⟩
    · rw [hpc]
      exact .ret _ _ _
    · rw [hmutex, Ne, Option.some.injEq]
      exact Ne.symm hj
  · rw [hs', pcs_after_self]
    exact hT.advanced hI (hleg i) (hsrc i) hlock hunlock

/-! ### Every schedule -/

/-- A schedule keeps the history and the store in step. -/
lemma told_run (hleg : ∀ i, (calls i).Legal)
    (htmp : ∀ i j, (calls i).tmp = (calls j).tmp → i = j ∨ (calls i).tmp = none)
    {schedule : List ι} (hT : Told root calls fs₀ s h ahead) (hI : Inv root calls fs₀ s)
    (hsrc : Throughout (step root calls) (fun s => ∀ i, (calls i).SourceSame fs₀ s.fs) s
      schedule) :
    ∃ ahead, Told root calls fs₀ (schedule.foldl (step root calls) s)
      (h ++ history root calls s schedule) ahead := by
  induction schedule generalizing s h ahead with
  | nil =>
      rw [history, List.append_nil]
      exact ⟨ahead, hT⟩
  | cons i schedule ih =>
      obtain ⟨hsrc₀, hsrc⟩ := throughout_cons.mp hsrc
      obtain ⟨ahead', hT'⟩ := hT.next hI hleg hsrc₀ i
      rw [history, List.foldl_cons, ← List.append_assoc]
      exact ih hT' (inv_step hleg htmp hsrc₀ hI i) hsrc

/-- **The store is linearizable.**  From a store within its limits, in every schedule of adds,
limit checks and removals that leaves the sources as they were, the calls take effect one at a
time, each between its first step and its last, and every one of them answers what the store
allowed then: an `add` that succeeds found its name free and room for one more file, one that
finds the store full was called while it was full.  An `add` or a `can_add` fails with `io` only
when its source cannot be copied, or when its listing misses a file and a `remove` that took one
overlaps it. -/
theorem store_linearizable (root : AbsPath) (calls : ι → Call) {fs : FileSystem C}
    (hroot : node fs root = some .dir) (hw : WithinLimits root fs)
    (hleg : ∀ i, (calls i).Legal)
    (htmp : ∀ i j, (calls i).tmp = (calls j).tmp → i = j ∨ (calls i).tmp = none)
    {schedule : List ι}
    (hsrc : Throughout (step root calls) (fun s => ∀ i, (calls i).SourceSame fs s.fs) (begin fs)
      schedule) :
    Linearizable (storeSpec root fs) (shown root fs) (history root calls (begin fs) schedule)
      ∧ ∀ i e, .ret i (.error (.io e)) ∈ history root calls (begin fs) schedule →
        (calls i).isRemove = false → (calls i).CopyFails root fs e
          ∨ e = .notFound ∧ Disturbed (history root calls (begin fs) schedule) i := by
  have hinv : Inv root calls fs (begin fs) := inv_begin hroot hw
  obtain ⟨ahead, hT⟩ := told_run hleg htmp told_begin hinv hsrc
  have hE := excused_run hleg htmp excused_begin hinv hsrc
  rw [List.nil_append] at hT hE
  refine ⟨hT.foretold.linearizable, fun i e hret hcall => hE.failed i e ?_ hcall⟩
  have hresult := (hE.returned i _).mp hret
  generalize (schedule.foldl (step root calls) (begin fs)).pcs i = pc at hresult ⊢
  cases pc with
  | done r =>
      obtain rfl : r = .error (.io e) := Option.some.inj hresult
      rfl
  | _ => cases hresult

/-- An `add` that finds the store full after the removal of a file it had counted, and one whose
listing misses the file. -/
theorem late_schedule_linearizable : (∃ schedule,
    (history [ofStr "store"] threeCalls (begin twoFiles) schedule).drop 4
        = [.ret 2 (.ok ()), .ret 1 (.error (.full 3 3))]
      ∧ Linearizable (storeSpec [ofStr "store"] twoFiles) (shown [ofStr "store"] twoFiles)
        (history [ofStr "store"] threeCalls (begin twoFiles) schedule))
    ∧ ∃ schedule, Disturbed (history [ofStr "store"] threeCalls (begin twoFiles) schedule) 0 := by
  have hcopies : ¬ (threeCalls 0).CopyFails [ofStr "store"] twoFiles .notFound := by
    intro h
    have hcopy : copy twoFiles ⟨[], ofStr "x"⟩ ⟨[ofStr "store"], tmpName ⟨1, 1⟩⟩
        = .error .notFound := h
    exact absurd (congrArg Except.isOk hcopy) (by decide)
  refine ⟨⟨[0, 0, 0, 0, 0, 0, 0, 0, 0, 0, 0, 0, 0, 1, 1, 1, 1, 1, 1, 1, 1, 2, 2, 1, 1, 1, 1],
    by decide, ?_⟩, [0, 0, 0, 0, 2, 2, 0, 0, 0, 0, 0, 0, 0, 0], ?_⟩
  · exact (store_linearizable _ _ (by rfl) (by decide) (by decide) (by decide) (by decide)).1
  · exact (((store_linearizable _ _ (by rfl) (by decide) (by decide) (by decide)
      (by decide)).2 0 .notFound (by decide) (by decide)).resolve_left hcopies).2

end Dddatasync
