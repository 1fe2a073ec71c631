import Mathlib.Data.List.Infix
import Mathlib.Tactic

/-!
Runs of a program: finite runs that execute a list of operations, and the reachable states
of a system that takes guarded steps.

* `Throughout`, `Along`: a property of every state of a run, and of every operation of a
  run together with the state it starts from; `throughout_of_step` is the invariant rule
  and `throughout_iff_along` turns the exact condition of one step into the exact
  condition of a run.
* `along_congr`: two conditions that agree on an invariant hold along the same runs.
* `Reachable`: the states of a system with a guarded step, with its invariant rule;
  `exec`: running a list of actions; `trace`: the transitions of a run, with
  `exec_invariant` and `exec_of_trace`.
* `Sometime`: a property of some state of a run so far; `history_invariant`, the invariant
  rule for a state and the run that led to it.
* `Quiesces`: every sequence of steps is finite; `quiesces_of_measure` and
  `not_quiesces_of_progress`, the two rules that decide it.
-/

namespace Runs

/-! ### Executing a list of operations -/

section Operations

variable {S A : Type*} (step : S → A → S)

/-- `I` holds of every state of the run, the first and the last included. -/
def Throughout (I : S → Prop) (s : S) (as : List A) : Prop :=
  ∀ done, done <+: as → I (done.foldl step s)

/-- `P` holds of every operation of the run and the state it starts from. -/
def Along (P : S → A → Prop) (s : S) (as : List A) : Prop :=
  ∀ done a, done ++ [a] <+: as → P (done.foldl step s) a

variable {step}

lemma throughout_nil {I : S → Prop} {s : S} : Throughout step I s [] ↔ I s := by
  constructor
  · intro h
    exact h [] List.prefix_rfl
  · intro h done hd
    rw [List.prefix_nil.mp hd]
    exact h

lemma throughout_cons {I : S → Prop} {s : S} {a : A} {as : List A} :
    Throughout step I s (a :: as) ↔ I s ∧ Throughout step I (step s a) as := by
  constructor
  · intro h
    exact ⟨h [] List.nil_prefix, fun done hd => h (a :: done) (List.cons_prefix_cons.mpr ⟨rfl, hd⟩)⟩
  · rintro ⟨h0, h⟩ done hd
    cases done with
    | nil => exact h0
    | cons b done =>
        obtain ⟨rfl, hrest⟩ := List.cons_prefix_cons.mp hd
        exact h done hrest

instance decidableThroughout {I : S → Prop} [DecidablePred I] :
    ∀ (s : S) (as : List A), Decidable (Throughout step I s as)
  | _, [] => decidable_of_iff _ throughout_nil.symm
  | s, a :: as =>
      have : Decidable (Throughout step I (step s a) as) := decidableThroughout _ as
      decidable_of_iff _ throughout_cons.symm

lemma along_nil {P : S → A → Prop} {s : S} : Along step P s [] := by
  intro done a h
  have := List.prefix_nil.mp h
  simp at this

lemma along_cons {P : S → A → Prop} {s : S} {a : A} {as : List A} :
    Along step P s (a :: as) ↔ P s a ∧ Along step P (step s a) as := by
  constructor
  · intro h
    exact ⟨h [] a (by simp), fun done b hd => h (a :: done) b (List.cons_prefix_cons.mpr ⟨rfl, hd⟩)⟩
  · rintro ⟨h0, h⟩ done b hd
    cases done with
    | nil =>
        rw [List.nil_append, List.cons_prefix_cons] at hd
        rw [hd.1]
        exact h0
    | cons c done =>
        obtain ⟨rfl, hrest⟩ := List.cons_prefix_cons.mp hd
        exact h done b hrest

instance decidableAlong {P : S → A → Prop} [∀ s a, Decidable (P s a)] :
    ∀ (s : S) (as : List A), Decidable (Along step P s as)
  | _, [] => isTrue along_nil
  | s, a :: as =>
      have : Decidable (Along step P (step s a) as) := decidableAlong _ as
      decidable_of_iff _ along_cons.symm

lemma Throughout.along {I : S → Prop} {s : S} {as : List A} (h : Throughout step I s as) :
    Along step (fun s _ => I s) s as :=
  fun done _ hpre => h done ((List.prefix_append done _).trans hpre)

/-- What every legal operation keeps holds throughout. -/
lemma throughout_of_step {L : S → A → Prop} {I : S → Prop}
    (hstep : ∀ s a, L s a → I s → I (step s a)) {s : S} {as : List A} (hL : Along step L s as)
    (h0 : I s) : Throughout step I s as := by
  induction as generalizing s with
  | nil => exact throughout_nil.mpr h0
  | cons a as ih =>
      rw [along_cons] at hL
      exact throughout_cons.mpr ⟨h0, ih hL.2 (hstep s a hL.1 h0)⟩

lemma along_of_forall {P : S → A → Prop} {s : S} {as : List A}
    (h : ∀ a ∈ as, ∀ s, P s a) : Along step P s as := by
  intro done a hpre
  have hmem : a ∈ done ++ [a] := by simp
  exact h a (hpre.subset hmem) _

/-- **The exact condition of a run.**  If a legal operation keeps `J`, and keeps `I` exactly
when `P` holds of it, then a run of legal operations from a state with both keeps `I`
exactly when `P` holds all along. -/
theorem throughout_iff_along {L P : S → A → Prop} {I J : S → Prop}
    (hJ : ∀ s a, L s a → J s → J (step s a))
    (hstep : ∀ s a, L s a → J s → I s → (I (step s a) ↔ P s a)) {s : S} {as : List A}
    (hL : Along step L s as) (hJ0 : J s) (h0 : I s) :
    Throughout step I s as ↔ Along step P s as := by
  induction as generalizing s with
  | nil => exact ⟨fun _ => along_nil, fun _ => throughout_nil.mpr h0⟩
  | cons a as ih =>
      rw [along_cons] at hL
      rw [throughout_cons, along_cons, ← hstep s a hL.1 hJ0 h0]
      constructor
      · rintro ⟨-, h⟩
        have h1 : I (step s a) := h [] List.nil_prefix
        exact ⟨h1, (ih hL.2 (hJ s a hL.1 hJ0) h1).mp h⟩
      · rintro ⟨h1, h⟩
        exact ⟨h0, (ih hL.2 (hJ s a hL.1 hJ0) h1).mpr h⟩

/-- Two conditions along a run are the same if they agree wherever `J` holds, and a legal
operation that meets the first keeps `J`. -/
lemma along_congr {L P Q : S → A → Prop} {J : S → Prop}
    (hJ : ∀ s a, L s a → J s → P s a → J (step s a))
    (hPQ : ∀ s a, L s a → J s → (P s a ↔ Q s a)) {s : S} {as : List A}
    (hL : Along step L s as) (h0 : J s) : Along step P s as ↔ Along step Q s as := by
  induction as generalizing s with
  | nil => exact ⟨fun _ => along_nil, fun _ => along_nil⟩
  | cons a as ih =>
      rw [along_cons] at hL
      rw [along_cons, along_cons, ← hPQ s a hL.1 h0]
      constructor
      · rintro ⟨hP, h⟩
        exact ⟨hP, (ih hL.2 (hJ s a hL.1 h0 hP)).mp h⟩
      · rintro ⟨hP, h⟩
        exact ⟨hP, (ih hL.2 (hJ s a hL.1 h0 hP)).mpr h⟩

end Operations

/-! ### Guarded steps -/

section Guarded

variable {S A : Type*}

/-- The states a system with a guarded step reaches from `init`. -/
inductive Reachable (step : S → A → Option S) (init : S) : S → Prop where
  | init : Reachable step init init
  | step {s s' : S} {a : A} (h : Reachable step init s) (hs : step s a = some s') :
      Reachable step init s'

variable {step : S → A → Option S} {init s : S}

/-- What holds at the start and is kept by every step holds in every reachable state. -/
lemma Reachable.invariant {I : S → Prop} (h0 : I init)
    (hstep : ∀ s a s', I s → step s a = some s' → I s') (h : Reachable step init s) : I s := by
  induction h with
  | init => exact h0
  | step _ hs ih => exact hstep _ _ _ ih hs

/-- Executing a list of actions, if all of them are possible. -/
def exec (step : S → A → Option S) : S → List A → Option S
  | s, [] => some s
  | s, a :: as => (step s a).bind fun s' => exec step s' as

lemma Reachable.exec {as : List A} {s' : S} (h : Reachable step init s)
    (hs : Runs.exec step s as = some s') : Reachable step init s' := by
  induction as generalizing s with
  | nil =>
      obtain rfl := Option.some.inj hs
      exact h
  | cons a as ih =>
      obtain ⟨t, ht, hs⟩ := Option.bind_eq_some_iff.mp hs
      exact ih (h.step ht) hs

lemma exec_append {as bs : List A} :
    Runs.exec step s (as ++ bs) = (Runs.exec step s as).bind fun s' => Runs.exec step s' bs := by
  induction as generalizing s with
  | nil => rfl
  | cons a as ih =>
      rw [List.cons_append, Runs.exec, Runs.exec, Option.bind_assoc]
      exact congrArg _ (funext fun _ => ih)

/-- The transitions of a run: the state before, the action, the state after. -/
def trace (step : S → A → Option S) : S → List A → List (S × A × S)
  | _, [] => []
  | s, a :: as =>
      match step s a with
      | none => []
      | some s' => (s, a, s') :: trace step s' as

lemma trace_cons {a : A} {as : List A} {s' : S} (h : step s a = some s') :
    trace step s (a :: as) = (s, a, s') :: trace step s' as := by
  rw [trace, h]

/-- The rest of a run has its transitions among those of the run. -/
lemma trace_subset {done as : List A} {s' : S} (h : Runs.exec step s done = some s')
    (rest : List A) :
    trace step s' as ⊆ trace step s (done ++ as ++ rest) := by
  induction done generalizing s with
  | nil =>
      obtain rfl := Option.some.inj h
      rw [List.nil_append]
      induction as generalizing s with
      | nil => exact List.nil_subset _
      | cons a as ih =>
          cases hs : step s a with
          | none =>
              rw [trace, hs]
              exact List.nil_subset _
          | some t =>
              rw [List.cons_append, trace_cons hs, trace_cons hs]
              exact List.cons_subset_cons _ (ih rfl)
  | cons a done ih =>
      obtain ⟨t, ht, h⟩ := Option.bind_eq_some_iff.mp h
      rw [List.cons_append, List.cons_append, trace_cons ht]
      exact List.Subset.trans (ih h) (List.subset_cons_self _ _)

/-- A transition of a run splits the run. -/
lemma exists_of_mem_trace {as : List A} {t : S × A × S} (h : t ∈ trace step s as) :
    ∃ done rest, as = done ++ t.2.1 :: rest ∧ Runs.exec step s done = some t.1
      ∧ step t.1 t.2.1 = some t.2.2 := by
  induction as generalizing s with
  | nil => cases h
  | cons a as ih =>
      cases hs : step s a with
      | none =>
          rw [trace, hs] at h
          cases h
      | some s' =>
          rw [trace_cons hs, List.mem_cons] at h
          rcases h with rfl | h
          · exact ⟨[], as, rfl, rfl, hs⟩
          · obtain ⟨done, rest, rfl, hdone, hlast⟩ := ih h
            refine ⟨a :: done, rest, rfl, ?_, hlast⟩
            rw [Runs.exec, hs]
            exact hdone

/-- What every transition of a run keeps holds at its end. -/
lemma exec_of_trace {I : S → Prop} {as : List A} {s' : S}
    (hstep : ∀ t ∈ trace step s as, I t.1 → I t.2.2) (h0 : I s)
    (hrun : Runs.exec step s as = some s') : I s' := by
  induction as generalizing s with
  | nil =>
      obtain rfl := Option.some.inj hrun
      exact h0
  | cons a as ih =>
      obtain ⟨t, ht, hrun⟩ := Option.bind_eq_some_iff.mp hrun
      rw [trace_cons ht] at hstep
      exact ih (fun r hr => hstep r (List.mem_cons_of_mem _ hr))
        (hstep _ List.mem_cons_self h0) hrun

/-- What the actions of a run keep holds at its end. -/
lemma exec_invariant {I : S → Prop} {as : List A} {s' : S}
    (hstep : ∀ s a s', a ∈ as → I s → step s a = some s' → I s') (h0 : I s)
    (hrun : Runs.exec step s as = some s') : I s' := by
  refine exec_of_trace (fun t ht hI => ?_) h0 hrun
  obtain ⟨done, rest, rfl, -, hs⟩ := exists_of_mem_trace ht
  exact hstep _ _ _ (List.mem_append_right done List.mem_cons_self) hI hs

lemma exec_snoc {as : List A} {a : A} :
    Runs.exec step s (as ++ [a]) = (Runs.exec step s as).bind fun t => step t a := by
  rw [exec_append]
  refine congrArg _ (funext fun t => ?_)
  rw [Runs.exec]
  exact Option.bind_fun_some _

/-- A step of a run is one of its transitions. -/
lemma mem_trace {done as : List A} {a : A} {t t' : S} (hpre : done ++ [a] <+: as)
    (hdone : Runs.exec step s done = some t) (ha : step t a = some t') :
    (t, a, t') ∈ trace step s as := by
  obtain ⟨rest, rfl⟩ := hpre
  refine trace_subset hdone rest ?_
  rw [trace_cons ha]
  exact List.mem_cons_self

/-- The last transition of a run. -/
lemma trace_snoc {as : List A} {a : A} {t t' : S} (hrun : Runs.exec step s as = some t)
    (ha : step t a = some t') : trace step s (as ++ [a]) = trace step s as ++ [(t, a, t')] := by
  induction as generalizing s with
  | nil =>
      obtain rfl := Option.some.inj hrun
      rw [List.nil_append, trace_cons ha]
      rfl
  | cons b as ih =>
      obtain ⟨u, hu, hrun⟩ := Option.bind_eq_some_iff.mp hrun
      rw [List.cons_append, trace_cons hu, trace_cons hu, ih hrun, List.cons_append]

/-! ### What has happened in a run -/

/-- `P` held in some state of the run, the first and the last included. -/
def Sometime (step : S → A → Option S) (P : S → Prop) (s : S) (as : List A) : Prop :=
  ∃ done t, done <+: as ∧ Runs.exec step s done = some t ∧ P t

variable {P : S → Prop} {as bs : List A}

lemma Sometime.mono (h : Sometime step P s as) (hpre : as <+: bs) : Sometime step P s bs := by
  obtain ⟨done, t, hdone, hrun, ht⟩ := h
  exact ⟨done, t, hdone.trans hpre, hrun, ht⟩

/-- What holds at the end of a run has held in it. -/
lemma Sometime.now {t : S} (hrun : Runs.exec step s as = some t) (ht : P t) :
    Sometime step P s as :=
  ⟨as, t, List.prefix_rfl, hrun, ht⟩

lemma Sometime.imp {Q : S → Prop} (h : Sometime step P s as) (himp : ∀ t, P t → Q t) :
    Sometime step Q s as := by
  obtain ⟨done, t, hdone, hrun, ht⟩ := h
  exact ⟨done, t, hdone, hrun, himp t ht⟩

/-- The states of a run are those after its first steps. -/
lemma Sometime.exists_take (h : Sometime step P s as) :
    ∃ n ≤ as.length, ∃ t, Runs.exec step s (as.take n) = some t ∧ P t := by
  obtain ⟨done, t, hdone, hrun, ht⟩ := h
  refine ⟨done.length, hdone.length_le, t, ?_, ht⟩
  rw [← List.prefix_iff_eq_take.mp hdone]
  exact hrun

/-- The invariant rule for a property of a state and of the run up to it. -/
lemma history_invariant {I : List A → S → Prop} {s' : S} (h0 : I [] s)
    (hstep : ∀ done a t t', done ++ [a] <+: as → Runs.exec step s done = some t → I done t →
      step t a = some t' → I (done ++ [a]) t')
    (hrun : Runs.exec step s as = some s') : I as s' := by
  induction as using List.reverseRecOn generalizing s' with
  | nil =>
      obtain rfl := Option.some.inj hrun
      exact h0
  | append_singleton as a ih =>
      rw [exec_snoc] at hrun
      obtain ⟨t, ht, ha⟩ := Option.bind_eq_some_iff.mp hrun
      have hI : I as t := ih (fun done b u u' hpre => hstep done b u u'
        (hpre.trans (List.prefix_append as [a]))) ht
      exact hstep as a t s' List.prefix_rfl ht hI ha

/-! ### Endless runs -/

/-- From `s` every sequence of steps is finite. -/
def Quiesces (step : S → A → Option S) (s : S) : Prop :=
  ¬ ∃ σ : ℕ → S, σ 0 = s ∧ ∀ n, ∃ a, step (σ n) a = some (σ (n + 1))

/-- A system quiesces if every step keeps `I` and makes a well-founded measure smaller. -/
lemma quiesces_of_measure {D : Type*} [Preorder D] [WellFoundedLT D] {I : S → Prop} (μ : S → D)
    (h0 : I s) (hstep : ∀ s a s', I s → step s a = some s' → I s' ∧ μ s' < μ s) :
    Quiesces step s := by
  rintro ⟨σ, rfl, hσ⟩
  have hI : ∀ n, I (σ n) := by
    intro n
    induction n with
    | zero => exact h0
    | succ n ih =>
        obtain ⟨a, ha⟩ := hσ n
        exact (hstep _ a _ ih ha).1
  obtain ⟨n, hn⟩ := WellFounded.not_rel_apply_succ (r := (· < ·)) fun n => μ (σ n)
  obtain ⟨a, ha⟩ := hσ n
  exact hn (hstep _ a _ (hI n) ha).2

/-- A system that can always take a step and keep `I` with it does not quiesce. -/
lemma not_quiesces_of_progress {I : S → Prop} (h0 : I s)
    (hstep : ∀ s, I s → ∃ s', (∃ a, step s a = some s') ∧ I s') : ¬ Quiesces step s := by
  intro h
  have : Nonempty S := ⟨s⟩
  choose! t hnext using hstep
  let σ : ℕ → S := fun n => t^[n] s
  have hI : ∀ n, I (σ n) := by
    intro n
    induction n with
    | zero => exact h0
    | succ n ih =>
        show I (t^[n + 1] s)
        rw [Function.iterate_succ_apply']
        exact (hnext _ ih).2
  refine h ⟨σ, rfl, fun n => ?_⟩
  show ∃ a, step (σ n) a = some (t^[n + 1] s)
  rw [Function.iterate_succ_apply']
  exact (hnext _ (hI n)).1

end Guarded

end Runs
