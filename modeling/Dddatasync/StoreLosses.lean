import Dddatasync.StoreHistory

/-!
A listing that misses a file of the directory it has read.

* `Disturbed`: a call that took a file from the store overlaps the call.
* `advance_error`: where an `add` or a `can_add` gets an `io` error from.
* `Excused`: the invariant: what a call that counts will miss was taken during that call, and
  a call fails with `io` when its copy fails or it was disturbed.
* `Excused.moved`, `Excused.next`, `excused_run`.
-/

namespace Dddatasync

open Fs OsString Runs

variable {C : Type*} [HasLen C] {root : AbsPath} {fs₀ fs : FileSystem C} {ι : Type*} {i : ι}
  {call : Call} {pc : Pc}

/-! ### Where an error comes from -/

/-- A call that took its file from the store overlaps call `i`. -/
def Disturbed (h : List (CallEvent ι Call (Except StoreError Unit))) (i : ι) : Prop :=
  ∃ j name, .call j (.remove name) ∈ h ∧ .ret j (.ok ()) ∈ h ∧ CallEvent.Overlap h i j

/-- The error that a call returns or is about to return. -/
def Pc.error : Pc → Option StoreError
  | .discard e | .unlock (.error e) | .done (.error e) => some e
  | _ => none

@[simp]
lemma error_refuse (target : Option OsString) (e : StoreError) :
    (refuse target e).error = some e := by
  cases target <;> rfl

@[simp]
lemma error_approve (target : Option OsString) : (approve target).error = none := by
  cases target <;> rfl

lemma error_countEntry {target : Option OsString} {n : OsString} {pending : List OsString}
    {found : List FileEntry} {e : IoError}
    (h : (countEntry root target n pending found fs).error = some (.io e)) :
    e = .notFound ∧ Visible n ∧ entry fs root n = none := by
  rw [countEntry] at h
  split at h
  · cases h
  · rename_i hdot
    split at h
    · rename_i hnone
      rw [error_refuse] at h
      obtain rfl := StoreError.io.inj (Option.some.inj h)
      exact ⟨rfl, not_not.mp fun hv => hdot (startsWithDot_toStringLossy.mpr hv), hnone⟩
    · cases h

/-- **Where an `io` error comes from**: the call has it already, its copy has failed, or the
listing has missed a file. -/
lemma advance_error (hroot : node fs root = some .dir) (hsrc : call.SourceSame fs₀ fs)
    (htask : TaskOk root fs₀ fs call pc) (hcall : call.isRemove = false) {e : IoError}
    (h : (advance root fs call pc).pc.error = some (.io e)) :
    pc.error = some (.io e) ∨ call.CopyFails root fs₀ e
      ∨ e = .notFound ∧ ∃ target n pending found, pc = .count target (n :: pending) found
        ∧ Visible n ∧ entry fs root n = none := by
  cases pc with
  | start =>
      cases call with
      | add src stamp =>
          rw [advance_start] at h
          split at h
          · rename_i e' he
            obtain rfl := StoreError.io.inj (Option.some.inj h)
            exact .inr (.inl (copyFails_of_metadata hsrc he))
          · split at h <;> cases h
      | canAdd size => cases h
      | remove name => cases hcall
  | copy size n =>
      cases call with
      | add src stamp =>
          rw [advance_copy] at h
          split at h
          · rename_i e' fs' hcopy
            obtain rfl := StoreError.io.inj (Option.some.inj h)
            exact .inr (.inl (copyFails_of_copyToTmp hsrc htask hcopy))
          · cases h
      | canAdd size => exact htask.elim
      | remove name => cases hcall
  | lock size target => cases call <;> cases h
  | check size target =>
      rw [advance_check, beginCheck, readDir_root hroot] at h
      split_ifs at h
      · rw [error_refuse] at h
        cases h
      · cases h
  | count target pending found =>
      cases pending with
      | nil =>
          rw [advance_count_nil, endCheck] at h
          split_ifs at h
          · rw [error_refuse] at h
            cases h
          · rw [error_approve] at h
            cases h
      | cons n pending =>
          rw [advance_count_cons] at h
          obtain ⟨he, hv, hn⟩ := error_countEntry h
          exact .inr (.inr ⟨he, target, n, pending, found, rfl, hv, hn⟩)
  | «exists» n =>
      rw [advance_exists] at h
      split_ifs at h <;> cases h
  | rename n =>
      cases call with
      | add src stamp =>
          obtain ⟨c, hc, -, -, hfree⟩ := htask
          rw [advance_rename_eq hc hfree] at h
          cases h
      | canAdd size => exact htask.elim
      | remove name => cases hcall
  | discard e' =>
      cases call with
      | add src stamp => exact .inl h
      | canAdd size => exact htask.elim
      | remove name => cases hcall
  | removeFile =>
      cases call with
      | add src stamp => exact htask.elim
      | canAdd size => exact htask.elim
      | remove name => cases hcall
  | unlock r => cases call <;> exact .inl h
  | done r => cases call <;> exact .inl h

/-! ### The invariant -/

/-- The history has what the calls did, and none fails with `io` without a reason. -/
structure Excused (root : AbsPath) (calls : ι → Call) (fs₀ : FileSystem C) (s : Threads ι C)
    (h : List (CallEvent ι Call (Except StoreError Unit))) : Prop where
  called : ∀ i op, .call i op ∈ h ↔ op = calls i ∧ s.pcs i ≠ .start
  returned : ∀ i r, .ret i r ∈ h ↔ (s.pcs i).result = some r
  missed : ∀ i target pending found n, s.pcs i = .count target pending found → n ∈ pending →
    Visible n → entry s.fs root n = none → Disturbed h i
  failed : ∀ i e, (s.pcs i).error = some (.io e) → (calls i).isRemove = false →
    (calls i).CopyFails root fs₀ e ∨ e = .notFound ∧ Disturbed h i

variable {calls : ι → Call} {s s' : Threads ι C}
  {h : List (CallEvent ι Call (Except StoreError Unit))}

omit [HasLen C] in
lemma excused_begin : Excused root calls fs₀ (begin fs₀) [] where
  called := fun i op => ⟨fun hop => (by cases hop), fun hop => absurd rfl hop.2⟩
  returned := fun i r => ⟨fun hr => (by cases hr), fun hr => (by cases hr)⟩
  missed := fun i target pending found n hpc => by cases hpc
  failed := fun i e he => by cases he

omit [HasLen C] in
/-- Later steps take nothing from the reason of a failure. -/
lemma Excused.disturbed_append (hE : Excused root calls fs₀ s h) {j : ι} {pc' : Pc}
    (hd : Disturbed h j) : Disturbed (h ++ events i (calls i) (s.pcs i) pc') j := by
  have hbegun : ∀ {k}, (∃ op, .call k op ∈ h) →
      ∀ op, .call k op ∉ events i (calls i) (s.pcs i) pc' := by
    rintro k ⟨op, hop⟩ op' hop'
    obtain ⟨rfl, -, hstart⟩ := call_mem_events.mp hop'
    exact ((hE.called k op).mp hop).2 hstart
  obtain ⟨k, name, hcall, hret, ho⟩ := hd
  exact ⟨k, name, List.mem_append_left _ hcall, List.mem_append_left _ hret,
    ho.append (hbegun ho.left) (hbegun ho.right)⟩

omit [HasLen C] in
/-- Call `i` removes its name while `j` is counting. -/
lemma Excused.disturbed_removed (hE : Excused root calls fs₀ s h) {j : ι} (hj : j ≠ i)
    {target : Option OsString} {pending : List OsString} {found : List FileEntry}
    (hcount : s.pcs j = .count target pending found) {name : String}
    (hcall : calls i = .remove name) (hremove : s.pcs i = .removeFile) {pc' : Pc}
    (hok : pc' = .done (.ok ())) :
    Disturbed (h ++ events i (calls i) (s.pcs i) pc') j := by
  have hstarted : s.pcs i ≠ .start := by simp [hremove]
  have ho : CallEvent.Overlap h j i := by
    refine CallEvent.overlap_of_pending ⟨_, (hE.called j _).mpr ⟨rfl, by simp [hcount]⟩⟩
      ⟨_, (hE.called i _).mpr ⟨rfl, hstarted⟩⟩ (fun r hr => ?_) fun r hr => ?_
    · rw [hE.returned, hcount] at hr
      cases hr
    · rw [hE.returned, hremove] at hr
      cases hr
  have hret : CallEvent.ret i (.ok ()) ∈ events i (calls i) (s.pcs i) pc' := by
    rw [ret_mem_events, hremove, hok]
    exact ⟨rfl, rfl, rfl⟩
  exact ⟨i, name, List.mem_append_left _ ((hE.called i _).mpr ⟨hcall.symm, hstarted⟩),
    List.mem_append_right _ hret, ho.append (fun op hop => hj (call_mem_events.mp hop).1)
      fun op hop => hstarted (call_mem_events.mp hop).2.2⟩

variable [DecidableEq ι]

omit [HasLen C] in
/-- **A step of call `i`**, whatever it does with the mutex. -/
lemma Excused.moved (hE : Excused root calls fs₀ s h)
    (hpcs : s'.pcs = Function.update s.pcs i (s'.pcs i)) (hstart : s'.pcs i ≠ .start)
    (hdone : ∀ r, (s.pcs i).result = some r → (s'.pcs i).result = some r)
    (hkept : ∀ n, Visible n → entry s'.fs root n = none → entry s.fs root n = none
      ∨ ∃ name, calls i = .remove name ∧ s.pcs i = .removeFile ∧ s'.pcs i = .done (.ok ()))
    (hmissed : ∀ target pending found n, s'.pcs i = .count target pending found →
      n ∈ pending → Visible n → entry s'.fs root n = none → Disturbed h i)
    (hfailed : ∀ e, (s'.pcs i).error = some (.io e) → (calls i).isRemove = false →
      (calls i).CopyFails root fs₀ e ∨ e = .notFound ∧ Disturbed h i) :
    Excused root calls fs₀ s' (h ++ events i (calls i) (s.pcs i) (s'.pcs i)) := by
  have hne : ∀ {j}, j ≠ i → s'.pcs j = s.pcs j := by
    intro j hj
    rw [hpcs, Function.update_of_ne hj]
  refine ⟨fun j op => ?_, fun j r => ?_, fun j target pending found n hpc hmem hv hn => ?_,
    fun j e he hcall => ?_⟩
  · rw [List.mem_append, hE.called, call_mem_events]
    by_cases hj : j = i
    · subst hj
      have := em (s.pcs j = .start)
      tauto
    · rw [hne hj]
      simp [hj]
  · rw [List.mem_append, hE.returned, ret_mem_events]
    by_cases hj : j = i
    · subst hj
      constructor
      · rintro (hr | ⟨-, -, hr⟩)
        · exact hdone r hr
        · exact hr
      · intro hr
        cases hres : (s.pcs j).result with
        | none => exact .inr ⟨rfl, rfl, hr⟩
        | some r' => exact .inl ((hdone r' hres).symm.trans hr)
    · rw [hne hj]
      simp [hj]
  · by_cases hj : j = i
    · subst hj
      exact hE.disturbed_append (hmissed _ _ _ n hpc hmem hv hn)
    · rw [hne hj] at hpc
      rcases hkept n hv hn with hn | ⟨name, hcall, hremove, hok⟩
      · exact hE.disturbed_append (hE.missed j _ _ _ n hpc hmem hv hn)
      · exact hE.disturbed_removed hj hpc hcall hremove hok
  · by_cases hj : j = i
    · subst hj
      exact (hfailed e he hcall).imp_right fun hd => ⟨hd.1, hE.disturbed_append hd.2⟩
    · rw [hne hj] at he
      exact (hE.failed j e he hcall).imp_right fun hd => ⟨hd.1, hE.disturbed_append hd.2⟩

/-- What a step takes from the store, a `remove` takes that returns at once. -/
lemma Advanced.taken {o : Next C} (hadv : Advanced root fs₀ fs call pc o) {n : OsString}
    (hv : Visible n) (hn : entry o.fs root n = none) : entry fs root n = none
      ∨ ∃ name, call = .remove name ∧ pc = .removeFile ∧ o.pc = .done (.ok ()) := by
  cases hadv.effect with
  | hidden same _ _ => exact .inl ((same.entry_eq n hv).symm.trans hn)
  | dropped name call_eq pc_eq _ _ _ next => exact .inr ⟨name, call_eq, pc_eq, next⟩
  | placed src stamp m c _ _ _ _ placed _ _ _ _ =>
      have hnm : n ≠ m := by
        rintro rfl
        rw [placed.entry_self] at hn
        cases hn
      exact .inl ((placed.entry_ne n hv hnm).symm.trans hn)

variable [Fintype ι]

/-- A step of a call that leaves the mutex alone. -/
lemma Excused.advanced (hE : Excused root calls fs₀ s h) (hI : Inv root calls fs₀ s)
    (hleg : (calls i).Legal) (hsrc : (calls i).SourceSame fs₀ s.fs) :
    Excused root calls fs₀ (s.after i (advance root s.fs (calls i) (s.pcs i)))
      (h ++ events i (calls i) (s.pcs i) (advance root s.fs (calls i) (s.pcs i)).pc) := by
  have hadv := advance_spec hI.root_dir hleg hsrc (hI.task i)
  have hfollows := follows_advance hI.root_dir (hI.task i)
  have hstep : Excused root calls fs₀ (s.after i (advance root s.fs (calls i) (s.pcs i)))
      (h ++ events i (calls i) (s.pcs i)
        ((s.after i (advance root s.fs (calls i) (s.pcs i))).pcs i)) := by
    refine hE.moved (by rw [pcs_after_self]; rfl) ?_ ?_ ?_ ?_ ?_ <;> rw [pcs_after_self]
    · exact hfollows.ne_start
    · intro r hr
      cases hpc : s.pcs i with
      | done r' =>
          rw [hpc] at hr
          cases calls i <;> exact hr
      | _ =>
          rw [hpc] at hr
          cases hr
    · exact fun n hv hn => hadv.taken hv hn
    · intro target pending found n hpc hmem hv hn
      have hfrom := hfollows.counted _ _ _ hpc
      have hn : entry s.fs root n = none := hfrom.fs_eq.1 ▸ hn
      rcases hfrom with ⟨size, -, rfl, -⟩ | ⟨m, found₀, hcount, -⟩
      · -- the directory has just been read
        obtain ⟨⟨m, x⟩, hx, rfl⟩ := List.mem_map.mp hmem
        rw [mem_children.mp hx] at hn
        cases hn
      · exact hE.missed i _ _ _ n hcount (List.mem_cons_of_mem m hmem) hv hn
    · intro e he hcall
      rcases advance_error hI.root_dir hsrc (hI.task i) hcall he with
        he | hcopy | ⟨rfl, target, n, pending, found, hpc, hv, hn⟩
      · exact hE.failed i e he hcall
      · exact .inl hcopy
      · exact .inr ⟨rfl, hE.missed i _ _ _ n hpc List.mem_cons_self hv hn⟩
  rwa [pcs_after_self] at hstep

/-- **One step of the calls.** -/
lemma Excused.next (hE : Excused root calls fs₀ s h) (hI : Inv root calls fs₀ s)
    (hleg : ∀ i, (calls i).Legal) (hsrc : ∀ i, (calls i).SourceSame fs₀ s.fs) (i : ι) :
    Excused root calls fs₀ (step root calls s i)
      (h ++ events i (calls i) (s.pcs i) ((step root calls s i).pcs i)) := by
  obtain ⟨size, target, hpc, hs'⟩ | ⟨size, target, hpc, -, hs'⟩ | ⟨r, hpc, hs'⟩ | ⟨-, -, hs'⟩ :=
    threadStep_cases root calls s i
  · rw [hs', events_silent (by simp [hpc]) rfl, List.append_nil]
    exact hE
  · rw [hs']
    refine hE.moved ?_ ?_ ?_ (fun n _ hn => .inl hn) ?_ ?_ <;> simp [hpc, Pc.result, Pc.error]
  · rw [hs']
    refine hE.moved ?_ ?_ ?_ (fun n _ hn => .inl hn) ?_ fun e he hcall => hE.failed i e ?_ hcall
    · simp
    · simp
    · simp [hpc, Pc.result]
    · simp
    · have he : (Pc.done r).error = some (.io e) := by simpa only [Function.update_self] using he
      rw [hpc]
      cases r <;> exact he
  · rw [hs', pcs_after_self]
    exact hE.advanced hI (hleg i) (hsrc i)

/-- **Every schedule**: no call fails with `io` without a reason. -/
lemma excused_run (hleg : ∀ i, (calls i).Legal)
    (htmp : ∀ i j, (calls i).tmp = (calls j).tmp → i = j ∨ (calls i).tmp = none)
    {schedule : List ι} (hE : Excused root calls fs₀ s h) (hI : Inv root calls fs₀ s)
    (hsrc : Throughout (step root calls) (fun s => ∀ i, (calls i).SourceSame fs₀ s.fs) s
      schedule) :
    Excused root calls fs₀ (schedule.foldl (step root calls) s)
      (h ++ history root calls s schedule) := by
  induction schedule generalizing s h with
  | nil =>
      rw [history, List.append_nil]
      exact hE
  | cons i schedule ih =>
      obtain ⟨hsrc₀, hsrc⟩ := throughout_cons.mp hsrc
      rw [history, List.foldl_cons, ← List.append_assoc]
      exact ih (hE.next hI hleg hsrc₀ i) (inv_step hleg htmp hsrc₀ hI i) hsrc

end Dddatasync
