import Dddatasync.Library.Runs
import Dddatasync.StoreThreads

/-!
Concurrent calls on one store: the limits and the accounting in every interleaving.

* `Shrinks`, `taskOk_stable`: what a call knows survives the steps of the others, and of a
  call that holds the mutex every step that adds nothing.
* `Inv`: the invariant: the limits, who holds the mutex, what each call knows, the number of
  visible files against the calls that succeeded, and the history against the store.
* `inv_step`, `inv_run`; `concurrent_calls_correct`: what holds in every state of every schedule.
-/

namespace Dddatasync

open Fs OsString Runs

variable {C : Type*} [HasLen C] {root : AbsPath} {fs₀ fs fs' : FileSystem C}

/-! ### The steps of the others -/

/-- Nothing visible was added. -/
structure Shrinks (root : AbsPath) (fs fs' : FileSystem C) : Prop where
  entry_eq : ∀ n, Visible n → entry fs' root n = entry fs root n ∨ entry fs' root n = none
  count_le : fileCount root fs' ≤ fileCount root fs

lemma SameVisible.shrinks (h : SameVisible root fs fs') : Shrinks root fs fs' where
  entry_eq := fun n hn => .inl (h.entry_eq n hn)
  count_le := h.fileCount_eq.le

lemma Dropped.shrinks {n : OsString} (h : Dropped root n fs fs') (hn : Visible n) :
    Shrinks root fs fs' where
  entry_eq := fun m hm => by
    by_cases hmn : m = n
    · exact .inr (hmn ▸ h.entry_self)
    · exact .inl (h.entry_ne m hm hmn)
  count_le := by
    have := fileCount_dropped h hn
    omega

omit [HasLen C] in
lemma Copied.stable {src : PathBuf} {stamp : Stamp} {n : OsString} {c : C}
    (h : Copied root fs₀ fs src stamp n c)
    (htmp : entry fs' root (tmpName stamp) = entry fs root (tmpName stamp)) :
    Copied root fs₀ fs' src stamp n c :=
  ⟨h.fileName, h.source, h.plain, h.visible, htmp.trans h.temp⟩

lemma Aims.stable {call : Call} {size : ℕ} {target : Option OsString}
    (h : Aims root fs₀ fs size call target)
    (htmp : ∀ m, call.tmp = some m → entry fs' root m = entry fs root m) :
    Aims root fs₀ fs' size call target := by
  match call, target with
  | .add src stamp, some n =>
      obtain ⟨c, hc, hs⟩ := h
      exact ⟨c, hc.stable (htmp _ rfl), hs⟩
  | .canAdd size, none => exact trivial
  | .add src stamp, none => exact h.elim
  | .canAdd size, some n => exact h.elim
  | .remove name, target => exact h.elim

lemma Covers.stable {pending : List OsString} {found : List FileEntry}
    (h : Covers root fs pending found) (hs : Shrinks root fs fs') :
    Covers root fs' pending found := by
  obtain ⟨seen, hlen, hcover⟩ := h
  refine ⟨seen, hlen, fun n ⟨hv, c, hc⟩ => hcover n ⟨hv, c, ?_⟩⟩
  rcases hs.entry_eq n hv with heq | heq
  · rw [← heq, hc]
  · rw [heq] at hc
    cases hc

/-- **Stability.**  What a call knows survives every change that leaves its temp file alone
and, while it holds the mutex, adds no visible file. -/
theorem taskOk_stable {call : Call} {pc : Pc} (h : TaskOk root fs₀ fs call pc)
    (htmp : ∀ m, call.tmp = some m → entry fs' root m = entry fs root m)
    (hshrink : pc.Holding → Shrinks root fs fs') : TaskOk root fs₀ fs' call pc := by
  cases pc with
  | lock size target => exact taskOk_lock.mpr ((taskOk_lock.mp h).stable htmp)
  | check size target => exact taskOk_check.mpr ((taskOk_check.mp h).stable htmp)
  | count target pending found =>
      obtain ⟨size, hsize, haims, hcover⟩ := taskOk_count.mp h
      exact taskOk_count.mpr ⟨size, hsize, haims.stable htmp, hcover.stable (hshrink trivial)⟩
  | start =>
      cases call with
      | add src stamp => exact (htmp _ rfl).trans h
      | canAdd size => exact trivial
      | remove name => exact trivial
  | copy size n =>
      cases call with
      | add src stamp => exact ⟨h.1, h.2.1, (htmp _ rfl).trans h.2.2⟩
      | canAdd size => exact h.elim
      | remove name => exact h.elim
  | «exists» n =>
      cases call with
      | add src stamp =>
          obtain ⟨c, hc, hlen, hcount⟩ := h
          exact ⟨c, hc.stable (htmp _ rfl), hlen, (hshrink trivial).count_le.trans_lt hcount⟩
      | canAdd size => exact h.elim
      | remove name => exact h.elim
  | rename n =>
      cases call with
      | add src stamp =>
          obtain ⟨c, hc, hlen, hcount, hfree⟩ := h
          have hs := hshrink trivial
          refine ⟨c, hc.stable (htmp _ rfl), hlen, hs.count_le.trans_lt hcount, ?_⟩
          rcases hs.entry_eq n hc.visible with heq | heq
          · rw [heq, hfree]
          · exact heq
      | canAdd size => exact h.elim
      | remove name => exact h.elim
  | discard e =>
      cases call with
      | add src stamp =>
          obtain ⟨n, c, hc⟩ := h
          exact ⟨n, c, hc.stable (htmp _ rfl)⟩
      | canAdd size => exact h.elim
      | remove name => exact h.elim
  | removeFile => cases call <;> exact h
  | unlock r =>
      cases call with
      | add src stamp => exact (htmp _ rfl).trans h
      | canAdd size => exact trivial
      | remove name => exact h.elim
  | done r =>
      cases call with
      | add src stamp =>
          cases r with
          | ok u => exact (htmp _ rfl).trans h
          | error e => exact h.imp ((htmp _ rfl).trans ·) ((htmp _ rfl).trans ·)
      | canAdd size => exact trivial
      | remove name => exact trivial

/-! ### The invariant -/

section Threads

variable {ι : Type*}

/-- A change of the history is an `add` of a visible name with the content of its source, or
a successful `remove`. -/
def Accounted (fs₀ : FileSystem C) (call : Call) (pc : Pc) : Change OsString C → Prop
  | .put n c => Visible n ∧ ∃ src stamp, call = .add src stamp ∧ fileName src = some n
      ∧ metadata fs₀ src = .ok (.file c)
  | .del n => Visible n ∧ ∃ name, call = .remove name ∧ ofStr name = n ∧ balance call pc = -1

/-- The invariant of the calls; `fs₀` is the tree they began with. -/
structure Inv [Fintype ι] (root : AbsPath) (calls : ι → Call) (fs₀ : FileSystem C)
    (s : Threads ι C) : Prop where
  root_dir : node s.fs root = some .dir
  limits : WithinLimits root s.fs
  mutex : ∀ i, (s.pcs i).Holding ↔ s.mutex = some i
  task : ∀ i, TaskOk root fs₀ s.fs (calls i) (s.pcs i)
  count : (fileCount root s.fs : ℤ)
    = fileCount root fs₀ + ∑ i, balance (calls i) (s.pcs i)
  accounted : ∀ i x, (i, x) ∈ s.log → Accounted fs₀ (calls i) (s.pcs i) x
  logged : ∀ i, balance (calls i) (s.pcs i) = 1 → ∃ n c, (i, .put n c) ∈ s.log
  kept : ∀ before after i n c, s.log = before ++ (i, .put n c) :: after →
    entry s.fs root n = some (.file c) ∨ ∃ j, (j, .del n) ∈ after

variable [Fintype ι] {calls : ι → Call} {s : Threads ι C}

lemma inv_begin (hroot : node fs₀ root = some .dir) (hw : WithinLimits root fs₀) :
    Inv root calls fs₀ (begin fs₀) where
  root_dir := hroot
  limits := hw
  mutex := fun i => by simp [begin, Pc.Holding]
  task := fun i => by
    show TaskOk root fs₀ fs₀ (calls i) .start
    cases calls i with
    | add src stamp => rfl
    | canAdd size => exact trivial
    | remove name => exact trivial
  count := by
    have h : ∀ i, balance (calls i) .start = 0 := fun i => by cases calls i <;> rfl
    simp [begin, h]
  accounted := fun i x h => absurd h List.not_mem_nil
  logged := fun i h => by
    have h0 : balance (calls i) .start = 0 := by cases calls i <;> rfl
    rw [begin, h0] at h
    cases h
  kept := fun before after i n c h => by simp [begin] at h

/-! ### One step under the invariant -/

variable {i : ι} {o : Next C}

/-- The step of one call adds nothing visible while another holds the mutex. -/
lemma Inv.shrinks (h : Inv root calls fs₀ s)
    (hadv : Advanced root fs₀ s.fs (calls i) (s.pcs i) o) {j : ι} (hj : j ≠ i)
    (hhold : (s.pcs j).Holding) : Shrinks root s.fs o.fs := by
  cases hadv.effect with
  | hidden same _ _ => exact same.shrinks
  | dropped name _ _ visible dropped _ _ => exact dropped.shrinks visible
  | placed src stamp n c _ pc_eq _ _ _ _ _ _ _ =>
      have hi : s.mutex = some i := (h.mutex i).mp (by rw [pc_eq]; trivial)
      rw [h.mutex j, hi, Option.some.injEq] at hhold
      exact absurd hhold.symm hj

lemma Inv.limits_after (h : Inv root calls fs₀ s)
    (hadv : Advanced root fs₀ s.fs (calls i) (s.pcs i) o) :
    node o.fs root = some .dir ∧ WithinLimits root o.fs := by
  cases hadv.effect with
  | hidden same _ _ => exact ⟨same.root_eq.trans h.root_dir, same.withinLimits h.limits⟩
  | dropped name _ _ visible dropped _ _ =>
      exact ⟨dropped.root_eq.trans h.root_dir, dropped.withinLimits visible h.limits⟩
  | placed src stamp n c _ _ copied _ placed room size _ _ =>
      exact ⟨placed.root_eq.trans h.root_dir,
        (withinLimits_placed_iff placed copied.visible h.limits).mpr ⟨.inr room, size⟩⟩

omit [Fintype ι] in
/-- The number of visible files moves with the balance of the call. -/
lemma Inv.count_after (hadv : Advanced root fs₀ s.fs (calls i) (s.pcs i) o) :
    (fileCount root o.fs : ℤ) = fileCount root s.fs
      + (balance (calls i) o.pc - balance (calls i) (s.pcs i)) := by
  cases hadv.effect with
  | hidden same _ balance_eq =>
      rw [same.fileCount_eq, balance_eq]
      ring
  | dropped name call_eq pc_eq visible dropped _ next =>
      have hcount := fileCount_dropped dropped visible
      have hnew : balance (calls i) o.pc = -1 := by rw [call_eq, next]; rfl
      have hold : balance (calls i) (s.pcs i) = 0 := by rw [call_eq, pc_eq]; rfl
      rw [hnew, hold]
      omega
  | placed src stamp n c call_eq pc_eq copied free placed _ _ _ next =>
      have hcount : fileCount root o.fs = fileCount root s.fs + 1 := by
        obtain ⟨⟨-, d, hd⟩, -⟩ | ⟨-, hc⟩ := fileCount_placed placed copied.visible
        · rw [free] at hd
          cases hd
        · exact hc
      have hnew : balance (calls i) o.pc = 1 := by rw [call_eq, next]; rfl
      have hold : balance (calls i) (s.pcs i) = 0 := by rw [call_eq, pc_eq]; rfl
      rw [hnew, hold]
      omega

omit [Fintype ι] in
/-- The new entries of the history are accounted for, and a success was logged. -/
lemma Inv.log_after (hadv : Advanced root fs₀ s.fs (calls i) (s.pcs i) o) :
    (∀ x ∈ o.changes, Accounted fs₀ (calls i) o.pc x)
      ∧ (∀ x, Accounted fs₀ (calls i) (s.pcs i) x → Accounted fs₀ (calls i) o.pc x)
      ∧ (balance (calls i) o.pc = 1 →
        balance (calls i) (s.pcs i) = 1 ∨ ∃ n c, .put n c ∈ o.changes) := by
  have hput : ∀ {n c pc pc'}, Accounted fs₀ (calls i) pc (.put n c) →
      Accounted (C := C) fs₀ (calls i) pc' (.put n c) := fun h => h
  cases hadv.effect with
  | hidden _ changes balance_eq =>
      refine ⟨by simp [changes], fun x hx => ?_, fun hb => .inl (balance_eq ▸ hb)⟩
      cases x with
      | put n c => exact hput hx
      | del n => exact ⟨hx.1, hx.2.imp fun _ hn => ⟨hn.1, hn.2.1, balance_eq.trans hn.2.2⟩⟩
  | dropped name call_eq pc_eq visible _ changes next =>
      have hnew : balance (calls i) o.pc = -1 := by rw [call_eq, next]; rfl
      refine ⟨fun x hx => ?_, fun x hx => ?_, fun hb => ?_⟩
      · rw [changes, List.mem_singleton] at hx
        rw [hx]
        exact ⟨visible, name, call_eq, rfl, hnew⟩
      · cases x with
        | put n c => exact hput hx
        | del n => exact ⟨hx.1, hx.2.imp fun _ hn => ⟨hn.1, hn.2.1, hnew⟩⟩
      · rw [hnew] at hb
        cases hb
  | placed src stamp n c call_eq pc_eq copied _ _ _ _ changes _ =>
      refine ⟨fun x hx => ?_, fun x hx => ?_, fun _ => .inr ⟨n, c, by simp [changes]⟩⟩
      · rw [changes, List.mem_singleton] at hx
        rw [hx]
        exact ⟨copied.visible, src, stamp, call_eq, copied.fileName, copied.source⟩
      · cases x with
        | put n c => exact hput hx
        | del n =>
            obtain ⟨-, name, hcall, -⟩ := hx
            rw [call_eq] at hcall
            cases hcall

/-- What one more change makes of a split history. -/
lemma append_singleton_split {α : Type*} {l before after : List α} {x y : α}
    (h : l ++ [x] = before ++ y :: after) :
    (after = [] ∧ y = x ∧ before = l)
      ∨ ∃ rest, after = rest ++ [x] ∧ l = before ++ y :: rest := by
  rcases List.eq_nil_or_concat' after with rfl | ⟨rest, z, rfl⟩
  · obtain ⟨hl, hx⟩ := List.append_inj' h rfl
    exact .inl ⟨rfl, (List.singleton_inj.mp hx).symm, hl.symm⟩
  · rw [← List.cons_append, ← List.append_assoc] at h
    obtain ⟨hl, hx⟩ := List.append_inj' h rfl
    exact .inr ⟨rest, by rw [List.singleton_inj.mp hx], hl⟩

section Moves

variable [DecidableEq ι]

omit [HasLen C] in
/-- What moving one call on does to the sum of the balances. -/
lemma sum_balance_update (calls : ι → Call) (pcs : ι → Pc) (i : ι) (pc : Pc) :
    ∑ j, balance (calls j) (Function.update pcs i pc j)
      = ∑ j, balance (calls j) (pcs j) + (balance (calls i) pc - balance (calls i) (pcs i)) := by
  have h : (fun j => balance (calls j) (Function.update pcs i pc j))
      = Function.update (fun j => balance (calls j) (pcs j)) i (balance (calls i) pc) :=
    funext fun j => Function.apply_update (fun j => balance (calls j)) pcs i pc j
  rw [h, Finset.sum_update_of_mem (Finset.mem_univ i), Finset.sdiff_singleton_eq_erase,
    ← Finset.add_sum_erase Finset.univ (fun j => balance (calls j) (pcs j)) (Finset.mem_univ i)]
  ring

/-- A call takes the mutex, or gives it back. -/
lemma Inv.move (h : Inv root calls fs₀ s) {i : ι} {pc : Pc} {mutex : Option ι}
    (htask : TaskOk root fs₀ s.fs (calls i) pc)
    (hbal : balance (calls i) pc = balance (calls i) (s.pcs i))
    (hmutex : pc.Holding ↔ mutex = some i)
    (hothers : ∀ j, j ≠ i → (s.mutex = some j ↔ mutex = some j)) :
    Inv root calls fs₀ { s with mutex := mutex, pcs := Function.update s.pcs i pc } := by
  have hsame : ∀ j, balance (calls j) (Function.update s.pcs i pc j)
      = balance (calls j) (s.pcs j) := by
    intro j
    by_cases hj : j = i
    · rw [hj, Function.update_self, hbal]
    · rw [Function.update_of_ne hj]
  refine ⟨h.root_dir, h.limits, fun j => ?_, fun j => ?_, ?_, fun j x hx => ?_, fun j hj => ?_,
    h.kept⟩
  · show (Function.update s.pcs i pc j).Holding ↔ mutex = some j
    by_cases hj : j = i
    · rw [hj, Function.update_self, hmutex]
    · rw [Function.update_of_ne hj, h.mutex j, hothers j hj]
  · show TaskOk root fs₀ s.fs (calls j) (Function.update s.pcs i pc j)
    by_cases hj : j = i
    · rw [hj, Function.update_self]
      exact htask
    · rw [Function.update_of_ne hj]
      exact h.task j
  · show (fileCount root s.fs : ℤ)
      = fileCount root fs₀ + ∑ j, balance (calls j) (Function.update s.pcs i pc j)
    rw [h.count, Finset.sum_congr rfl fun j _ => hsame j]
  · have := h.accounted j x hx
    cases x with
    | put n c => exact this
    | del n => exact ⟨this.1, this.2.imp fun name hn => ⟨hn.1, hn.2.1, (hsame j).trans hn.2.2⟩⟩
  · exact h.logged j ((hsame j).symm.trans hj)

/-- The state after a step of call `i` that leaves the mutex alone. -/
def Threads.after (s : Threads ι C) (i : ι) (o : Next C) : Threads ι C :=
  { s with
    fs := o.fs
    pcs := Function.update s.pcs i o.pc
    log := s.log ++ o.changes.map fun change => (i, change) }

omit [HasLen C] [Fintype ι] in
@[simp]
lemma pcs_after_self (s : Threads ι C) (i : ι) (o : Next C) : (s.after i o).pcs i = o.pc := by
  show Function.update s.pcs i o.pc i = o.pc
  rw [Function.update_self]

omit [HasLen C] [Fintype ι] in
lemma pcs_after_of_ne (s : Threads ι C) {i j : ι} (o : Next C) (h : j ≠ i) :
    (s.after i o).pcs j = s.pcs j := by
  show Function.update s.pcs i o.pc j = s.pcs j
  rw [Function.update_of_ne h]

omit [Fintype ι] in
/-- What a step of call `i` is: it waits for the mutex, takes it, gives it back, or leaves it
alone. -/
lemma threadStep_cases (root : AbsPath) (calls : ι → Call) (s : Threads ι C) (i : ι) :
    (∃ size target, s.pcs i = .lock size target ∧ step root calls s i = s)
      ∨ (∃ size target, s.pcs i = .lock size target ∧ s.mutex = none
          ∧ step root calls s i = { s with
            mutex := some i, pcs := Function.update s.pcs i (.check size target) })
      ∨ (∃ r, s.pcs i = .unlock r ∧ step root calls s i = { s with
          mutex := none, pcs := Function.update s.pcs i (.done r) })
      ∨ (∀ size target, s.pcs i ≠ .lock size target) ∧ (∀ r, s.pcs i ≠ .unlock r)
          ∧ step root calls s i = s.after i (advance root s.fs (calls i) (s.pcs i)) := by
  cases hpc : s.pcs i with
  | lock size target =>
      by_cases hfree : s.mutex = none
      · exact .inr (.inl ⟨size, target, rfl, hfree, by simp only [step, hpc, hfree, if_true]⟩)
      · exact .inl ⟨size, target, rfl, by simp only [step, hpc, if_neg hfree]⟩
  | unlock r => exact .inr (.inr (.inl ⟨r, rfl, by simp only [step, hpc]⟩))
  | _ =>
      refine .inr (.inr (.inr ⟨by simp, by simp, ?_⟩))
      simp only [step, hpc]
      rfl

/-- What an `add` placed stays until a `remove` of its name. -/
lemma Inv.kept_after (h : Inv root calls fs₀ s)
    (hadv : Advanced root fs₀ s.fs (calls i) (s.pcs i) o)
    {before after : List (ι × Change OsString C)} {j : ι} {n : OsString} {c : C}
    (heq : (s.after i o).log = before ++ (j, .put n c) :: after) :
    entry o.fs root n = some (.file c) ∨ ∃ k, (k, .del n) ∈ after := by
  have hlog : (s.after i o).log = s.log ++ o.changes.map fun change => (i, change) := rfl
  rw [hlog] at heq
  have hvis : ∀ {rest}, s.log = before ++ (j, .put n c) :: rest → Visible n := fun hl =>
    (h.accounted j (.put n c) (by rw [hl]; simp)).1
  cases hadv.effect with
  | hidden same changes _ =>
      rw [changes, List.map_nil, List.append_nil] at heq
      rw [same.entry_eq n (hvis heq)]
      exact h.kept _ _ _ _ _ heq
  | dropped name _ _ visible dropped changes _ =>
      rw [changes, List.map_singleton] at heq
      obtain ⟨-, hx, -⟩ | ⟨rest, rfl, hl⟩ := append_singleton_split heq
      · cases hx
      · rcases h.kept _ _ _ _ _ hl with hent | ⟨k, hk⟩
        · by_cases hn : n = ofStr name
          · exact .inr ⟨i, by simp [hn]⟩
          · exact .inl ((dropped.entry_ne n (hvis hl) hn).trans hent)
        · exact .inr ⟨k, List.mem_append_left _ hk⟩
  | placed src stamp m d _ _ copied free placed _ _ changes _ =>
      rw [changes, List.map_singleton] at heq
      obtain ⟨rfl, hx, -⟩ | ⟨rest, rfl, hl⟩ := append_singleton_split heq
      · cases hx
        exact .inl placed.entry_self
      · rcases h.kept _ _ _ _ _ hl with hent | ⟨k, hk⟩
        · have hn : n ≠ m := by
            rintro rfl
            rw [free] at hent
            cases hent
          exact .inl ((placed.entry_ne n (hvis hl) hn).trans hent)
        · exact .inr ⟨k, List.mem_append_left _ hk⟩

/-- A step of a call keeps the invariant. -/
lemma Inv.after (h : Inv root calls fs₀ s)
    (htmp : ∀ i j, (calls i).tmp = (calls j).tmp → i = j ∨ (calls i).tmp = none)
    (hadv : Advanced root fs₀ s.fs (calls i) (s.pcs i) o) :
    Inv root calls fs₀ (s.after i o) := by
  obtain ⟨hroot, hlimits⟩ := h.limits_after hadv
  obtain ⟨hnew, hold, hsuccess⟩ := Inv.log_after hadv
  refine ⟨hroot, hlimits, fun j => ?_, fun j => ?_, ?_, fun j x hx => ?_, fun j hj => ?_,
    fun before after j n c heq => h.kept_after hadv heq⟩
  · by_cases hj : j = i
    · rw [hj, pcs_after_self, hadv.holding]
      exact h.mutex i
    · rw [pcs_after_of_ne s o hj]
      exact h.mutex j
  · by_cases hj : j = i
    · rw [hj, pcs_after_self]
      exact hadv.task
    · rw [pcs_after_of_ne s o hj]
      refine taskOk_stable (h.task j) (fun m hm => hadv.others m ?_ fun hi => ?_)
        (h.shrinks hadv hj)
      · cases hc : calls j with
        | add src stamp =>
            rw [hc] at hm
            obtain rfl := Option.some.inj hm
            exact not_visible_tmpName stamp
        | canAdd size => rw [hc] at hm; cases hm
        | remove name => rw [hc] at hm; cases hm
      · refine (htmp j i (hm.trans hi.symm)).elim hj fun hnone => ?_
        rw [hm] at hnone
        cases hnone
  · show (fileCount root o.fs : ℤ)
      = fileCount root fs₀ + ∑ j, balance (calls j) (Function.update s.pcs i o.pc j)
    rw [sum_balance_update, Inv.count_after hadv, h.count]
    ring
  · rcases List.mem_append.mp hx with hx | hx
    · have hx : (j, x) ∈ s.log := hx
      by_cases hj : j = i
      · rw [hj] at hx ⊢
        rw [pcs_after_self]
        exact hold x (h.accounted i x hx)
      · rw [pcs_after_of_ne s o hj]
        exact h.accounted j x hx
    · obtain ⟨y, hy, heq⟩ := List.mem_map.mp hx
      cases heq
      rw [pcs_after_self]
      exact hnew x hy
  · by_cases hji : j = i
    · subst hji
      rw [pcs_after_self] at hj
      rcases hsuccess hj with hb | ⟨n, c, hmem⟩
      · obtain ⟨n, c, hmem⟩ := h.logged j hb
        exact ⟨n, c, List.mem_append_left _ hmem⟩
      · exact ⟨n, c, List.mem_append_right _ (List.mem_map_of_mem hmem)⟩
    · rw [pcs_after_of_ne s o hji] at hj
      obtain ⟨n, c, hmem⟩ := h.logged j hj
      exact ⟨n, c, List.mem_append_left _ hmem⟩

/-! ### Runs -/

/-- **One step of the calls** keeps the invariant. -/
theorem inv_step (hleg : ∀ i, (calls i).Legal)
    (htmp : ∀ i j, (calls i).tmp = (calls j).tmp → i = j ∨ (calls i).tmp = none)
    (hsrc : ∀ i, (calls i).SourceSame fs₀ s.fs) (h : Inv root calls fs₀ s) (i : ι) :
    Inv root calls fs₀ (step root calls s i) := by
  have htask := h.task i
  have hadv := advance_spec h.root_dir (hleg i) (hsrc i) htask
  rw [step]
  split
  · rename_i size target hpc
    split
    · rename_i hfree
      rw [hpc, taskOk_lock] at htask
      refine h.move (taskOk_check.mpr htask) ?_ ⟨fun _ => rfl, fun _ => trivial⟩ fun j hj => ?_
      · rw [hpc]
        cases calls i <;> rfl
      · simp [hfree, Ne.symm hj]
    · exact h
  · rename_i r hpc
    have hholds : s.mutex = some i := (h.mutex i).mp (by rw [hpc]; trivial)
    rw [hpc] at htask
    refine h.move ?_ ?_ ⟨False.elim, fun heq => by cases heq⟩ fun j hj => ?_
    · cases hc : calls i with
      | add src stamp =>
          rw [hc] at htask
          cases r with
          | ok u => exact htask
          | error e => exact .inl htask
      | canAdd size => exact trivial
      | remove name => exact trivial
    · rw [hpc]
      cases hc : calls i with
      | add src stamp => cases r <;> rfl
      | canAdd size => rfl
      | remove name =>
          rw [hc] at htask
          exact htask.elim
    · simp [hholds, Ne.symm hj]
  · exact h.after htmp hadv

/-- **Every schedule** keeps the invariant. -/
theorem inv_run (hleg : ∀ i, (calls i).Legal)
    (htmp : ∀ i j, (calls i).tmp = (calls j).tmp → i = j ∨ (calls i).tmp = none)
    {schedule : List ι} (h : Inv root calls fs₀ s)
    (hsrc : Throughout (step root calls) (fun s => ∀ i, (calls i).SourceSame fs₀ s.fs) s schedule) :
    Throughout (step root calls) (Inv root calls fs₀) s schedule :=
  throughout_of_step (I := Inv root calls fs₀)
    (fun _ i hsrc h => inv_step hleg htmp hsrc h i) hsrc.along h

/-- What holds in a state of the calls: the limits; no step but a `remove` of its name
touches a visible file; once all have returned, the successful adds less the successful
removals are the change in the number of visible files; what a successful `add` placed has
its source's content, unless it was removed since; no temp file of a finished `add` is
left. -/
structure Correct (root : AbsPath) (calls : ι → Call) (fs₀ : FileSystem C) (s : Threads ι C) :
    Prop where
  limits : WithinLimits root s.fs
  no_overwrite : ∀ i n c, Visible n → entry s.fs root n = some (.file c) →
    entry (step root calls s i).fs root n = some (.file c)
      ∨ ∃ name, calls i = .remove name ∧ ofStr name = n
  accounting : (∀ i, ∃ r, s.pcs i = .done r) →
    ((Finset.univ.filter fun i => (calls i).isAdd ∧ s.pcs i = .done (.ok ())).card : ℤ)
        - (Finset.univ.filter fun i => (calls i).isRemove ∧ s.pcs i = .done (.ok ())).card
      = fileCount root s.fs - fileCount root fs₀
  placed : ∀ i src stamp, calls i = .add src stamp → s.pcs i = .done (.ok ()) →
    ∃ n c before after, fileName src = some n ∧ metadata fs₀ src = .ok (.file c)
      ∧ s.log = before ++ (i, .put n c) :: after
      ∧ (entry s.fs root n = some (.file c) ∨ ∃ j name, (j, .del n) ∈ after
        ∧ calls j = .remove name ∧ ofStr name = n ∧ s.pcs j = .done (.ok ()))
  temps : ∀ i src stamp r, calls i = .add src stamp → s.pcs i = .done r →
    entry s.fs root (tmpName stamp) = none
      ∨ r ≠ .ok () ∧ entry s.fs root (tmpName stamp) = entry fs₀ root (tmpName stamp)

omit [DecidableEq ι] in
/-- When all calls have returned, the balances add up to adds less removals. -/
lemma sum_balance_done {calls : ι → Call} {pcs : ι → Pc} (h : ∀ i, ∃ r, pcs i = .done r) :
    ∑ i, balance (calls i) (pcs i)
      = ((Finset.univ.filter fun i => (calls i).isAdd ∧ pcs i = .done (.ok ())).card : ℤ)
        - (Finset.univ.filter fun i => (calls i).isRemove ∧ pcs i = .done (.ok ())).card := by
  rw [Finset.card_filter, Finset.card_filter]
  push_cast
  rw [← Finset.sum_sub_distrib]
  refine Finset.sum_congr rfl fun i _ => ?_
  obtain ⟨r, hr⟩ := h i
  rw [hr]
  cases calls i <;> cases r <;> simp [balance, Call.isAdd, Call.isRemove]

lemma balance_eq_neg_one {name : String} {pc : Pc} (h : balance (.remove name) pc = -1) :
    pc = .done (.ok ()) := by
  cases pc with
  | done r =>
      cases r with
      | ok u => rfl
      | error e => cases h
  | unlock r => cases h
  | _ => cases h

/-- A step touches a visible file only to remove it. -/
lemma no_overwrite_step (hleg : ∀ i, (calls i).Legal)
    (hsrc : ∀ i, (calls i).SourceSame fs₀ s.fs) (h : Inv root calls fs₀ s) (i : ι)
    {n : OsString} {c : C} (hv : Visible n) (hn : entry s.fs root n = some (.file c)) :
    entry (step root calls s i).fs root n = some (.file c)
      ∨ ∃ name, calls i = .remove name ∧ ofStr name = n := by
  have hadv := advance_spec h.root_dir (hleg i) (hsrc i) (h.task i)
  rw [step]
  split
  · split <;> exact .inl hn
  · exact .inl hn
  · cases hadv.effect with
    | hidden same _ _ => exact .inl ((same.entry_eq n hv).trans hn)
    | dropped name call_eq _ _ dropped _ _ =>
        by_cases hname : n = ofStr name
        · exact .inr ⟨name, call_eq, hname.symm⟩
        · exact .inl ((dropped.entry_ne n hv hname).trans hn)
    | placed src stamp m d _ _ _ free placed _ _ _ _ =>
        have hne : n ≠ m := by
          rintro rfl
          rw [free] at hn
          cases hn
        exact .inl ((placed.entry_ne n hv hne).trans hn)

/-- **Concurrent calls on one store.**  In every schedule of adds, limit checks and removals
that leaves the sources as they were, every state is correct. -/
theorem concurrent_calls_correct (root : AbsPath) (calls : ι → Call) {fs : FileSystem C}
    (hroot : node fs root = some .dir) (hw : WithinLimits root fs)
    (hleg : ∀ i, (calls i).Legal)
    (htmp : ∀ i j, (calls i).tmp = (calls j).tmp → i = j ∨ (calls i).tmp = none)
    {schedule : List ι}
    (hsrc : Throughout (step root calls) (fun s => ∀ i, (calls i).SourceSame fs s.fs) (begin fs)
      schedule) :
    Correct root calls fs (schedule.foldl (step root calls) (begin fs)) := by
  have h := inv_run hleg htmp (inv_begin hroot hw) hsrc schedule List.prefix_rfl
  have hend := hsrc schedule List.prefix_rfl
  refine ⟨h.limits, fun i n c hv hn => no_overwrite_step hleg hend h i hv hn, fun hdone => ?_,
    fun i src stamp hc hpc => ?_, fun i src stamp r hc hpc => ?_⟩
  · rw [← sum_balance_done hdone, h.count]
    ring
  · obtain ⟨n, c, hmem⟩ := h.logged i (by rw [hc, hpc]; rfl)
    obtain ⟨-, src', stamp', hcall, hname, hmeta⟩ := h.accounted i _ hmem
    rw [hc] at hcall
    cases hcall
    obtain ⟨before, after, hlog⟩ := List.append_of_mem hmem
    refine ⟨n, c, before, after, hname, hmeta, hlog, ?_⟩
    refine (h.kept before after i n c hlog).imp_right fun ⟨j, hj⟩ => ?_
    obtain ⟨-, name, hcj, hn, hb⟩ := h.accounted j (.del n) (by rw [hlog]; simp [hj])
    exact ⟨j, name, hj, hcj, hn, balance_eq_neg_one (hcj ▸ hb)⟩
  · have htask := h.task i
    rw [hc, hpc] at htask
    cases r with
    | ok u => exact .inl htask
    | error e => exact htask.imp_right fun heq => ⟨by simp, heq⟩

end Moves

end Threads

/-- A store with two files and room for one, and two source files. -/
def twoFiles : FileSystem (List UInt8) :=
  ((((AList.insert [ofStr "store"] .dir ∅).insert [ofStr "store", ofStr "a"] (.file [1])).insert
    [ofStr "store", ofStr "b"] (.file [2])).insert [ofStr "x"] (.file [3, 3])).insert
    [ofStr "y"] (.file [4])

/-- Two adds and a removal at once. -/
def threeCalls : Fin 3 → Call
  | 0 => .add ⟨[], ofStr "x"⟩ ⟨1, 1⟩
  | 1 => .add ⟨[], ofStr "y"⟩ ⟨1, 2⟩
  | 2 => .remove "a"

/-- The removal finishes while the first add, which has counted its file, holds the mutex. -/
def threeSchedule : List (Fin 3) :=
  [0, 1, 0, 0, 1, 2, 0, 0, 0, 0, 0, 2, 0, 0, 0, 0, 1, 1, 1, 1, 1, 1, 1, 1, 1]

theorem three_calls_correct : Correct [ofStr "store"] threeCalls twoFiles
    (threeSchedule.foldl (step [ofStr "store"] threeCalls) (begin twoFiles)) :=
  concurrent_calls_correct _ _ (by rfl) (by decide) (by decide) (by decide) (by decide)

end Dddatasync
