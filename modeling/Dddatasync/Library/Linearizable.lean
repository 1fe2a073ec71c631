import Mathlib.Data.List.Infix
import Mathlib.Tactic

/-!
Histories of concurrent calls and the sequential specifications they are compared with.

* `CallEvent`: a call begins or returns; `Precedes`: one call returned before another began;
  `Overlap`: neither did.
* `Spec`: what a call may answer in a state and the state after it, together with the moves
  the environment makes on its own; `Spec.Run`: calls taken one after the other.
* `Linearizes`, `Linearizable`: an order of the calls of a history in which each takes effect
  at once, that keeps the real-time order and gives every answer of the history.
* `Progress`, `Tracked`: how far each call is, in step with an order of the calls that have
  taken effect; a rule for every event (`Tracked.call`, `Tracked.commit`, `Tracked.ret`,
  `Tracked.drop`, `Tracked.tau`), and `Tracked.linearizable`.
* `Progress.Moves`, `Foretold`: the same where an answer may be settled before the call knows
  it; `Foretold.step`.
* `InFlight`: the same for a server with requests in flight that take one segment after the
  other; `InFlight.wait`, `InFlight.commit`, `InFlight.answer_now`, `InFlight.answer_later`: what a
  segment can be.
-/

/-- An event of a history: a call begins or returns. -/
inductive CallEvent (I O R : Type*) where
  | call (i : I) (op : O)
  | ret (i : I) (r : R)
  deriving DecidableEq

namespace CallEvent

variable {I O R : Type*} {h : List (CallEvent I O R)} {x : CallEvent I O R} {i j : I}

/-- Call `i` returned before call `j` began. -/
def Precedes (h : List (CallEvent I O R)) (i j : I) : Prop :=
  ∃ before r after op, h = before ++ ret i r :: after ∧ call j op ∈ after

/-- One more event orders nothing new, unless a call begins after another returned. -/
lemma precedes_snoc : Precedes (h ++ [x]) i j ↔
    Precedes h i j ∨ (∃ r, ret i r ∈ h) ∧ ∃ op, x = call j op := by
  constructor
  · rintro ⟨before, r, after, op, heq, hmem⟩
    rcases List.eq_nil_or_concat' after with rfl | ⟨after, y, rfl⟩
    · cases hmem
    · rw [← List.cons_append, ← List.append_assoc] at heq
      obtain ⟨rfl, hxy⟩ := List.append_inj' heq rfl
      obtain rfl := List.singleton_inj.mp hxy
      rcases List.mem_append.mp hmem with hmem | hmem
      · exact .inl ⟨before, r, after, op, rfl, hmem⟩
      · exact .inr ⟨⟨r, by simp⟩, op, (List.mem_singleton.mp hmem).symm⟩
  · rintro (⟨before, r, after, op, rfl, hmem⟩ | ⟨⟨r, hr⟩, op, rfl⟩)
    · exact ⟨before, r, after ++ [x], op, by simp, List.mem_append_left _ hmem⟩
    · obtain ⟨before, after, rfl⟩ := List.mem_iff_append.mp hr
      exact ⟨before, r, after ++ [call j op], op, by simp, by simp⟩

lemma Precedes.returned (hp : Precedes h i j) : ∃ r, ret i r ∈ h := by
  obtain ⟨before, r, after, op, rfl, -⟩ := hp
  exact ⟨r, by simp⟩

/-- Later events order nothing new among the calls that have begun. -/
lemma precedes_append {h' : List (CallEvent I O R)} (hj : ∀ op, call j op ∉ h') :
    Precedes (h ++ h') i j ↔ Precedes h i j := by
  induction h' using List.reverseRecOn with
  | nil => rw [List.append_nil]
  | append_singleton h' x ih =>
      rw [← List.append_assoc, precedes_snoc,
        ih fun op hop => hj op (List.mem_append_left _ hop)]
      refine or_iff_left ?_
      rintro ⟨-, op, rfl⟩
      exact hj op (List.mem_append_right _ (List.mem_singleton_self _))

/-- The calls `i` and `j` overlap: both began, neither after the other had returned. -/
structure Overlap (h : List (CallEvent I O R)) (i j : I) : Prop where
  left : ∃ op, call i op ∈ h
  right : ∃ op, call j op ∈ h
  not_before : ¬ Precedes h i j
  not_after : ¬ Precedes h j i

/-- Two calls that are under way. -/
lemma overlap_of_pending (hi : ∃ op, call i op ∈ h) (hj : ∃ op, call j op ∈ h)
    (hi' : ∀ r, ret i r ∉ h) (hj' : ∀ r, ret j r ∉ h) : Overlap h i j where
  left := hi
  right := hj
  not_before := fun hp => hp.returned.elim hi'
  not_after := fun hp => hp.returned.elim hj'

lemma Overlap.append {h' : List (CallEvent I O R)} (ho : Overlap h i j)
    (hi : ∀ op, call i op ∉ h') (hj : ∀ op, call j op ∉ h') : Overlap (h ++ h') i j where
  left := ho.left.imp fun _ => List.mem_append_left _
  right := ho.right.imp fun _ => List.mem_append_left _
  not_before := fun hp => ho.not_before ((precedes_append hj).mp hp)
  not_after := fun hp => ho.not_after ((precedes_append hi).mp hp)

end CallEvent

namespace CallEvent

variable {I O O' R R' : Type*} {h : List (CallEvent I O R)}

/-- The event with another account of its operation and its answer. -/
def map (f : O → O') (g : R → R') : CallEvent I O R → CallEvent I O' R'
  | call i op => call i (f op)
  | ret i r => ret i (g r)

lemma mem_map_call {f : O → O'} {g : R → R'} {i : I} {op' : O'} :
    call i op' ∈ h.map (map f g) ↔ ∃ op, call i op ∈ h ∧ f op = op' := by
  rw [List.mem_map]
  constructor
  · rintro ⟨e, he, heq⟩
    cases e with
    | call j op =>
        obtain ⟨rfl, hop⟩ := call.inj heq
        exact ⟨op, he, hop⟩
    | ret j r => cases heq
  · rintro ⟨op, hop, rfl⟩
    exact ⟨call i op, hop, rfl⟩

end CallEvent

/-- A sequential specification: `next s op r s'` when a call of `op` may answer `r` in `s` and
leave `s'`, and `tau` for what the environment does between the calls. -/
structure Spec (S O R : Type*) where
  next : S → O → R → S → Prop
  tau : S → S → Prop

/-- A call that has taken effect. -/
structure Effected (I O R : Type*) where
  id : I
  op : O
  result : R

namespace Spec

variable {I S O R : Type*}

/-- Calls taken one after the other. -/
inductive Run (spec : Spec S O R) (s : S) : List (Effected I O R) → S → Prop where
  | nil : Run spec s [] s
  | tau {order : List (Effected I O R)} {t t' : S} (h : Run spec s order t)
      (ht : spec.tau t t') : Run spec s order t'
  | next {order : List (Effected I O R)} {t t' : S} {e : Effected I O R}
      (h : Run spec s order t) (ht : spec.next t e.op e.result t') :
      Run spec s (order ++ [e]) t'

end Spec

/-! ### Linearizations -/

section Linearizations

open CallEvent

variable {I S O R : Type*} (spec : Spec S O R)

/-- `order` is an order in which the calls of `h` take effect at once, from `s₀` to `s`: no call
twice, only calls that began, all that returned and with the answers they returned, none
before a call that had returned when it began. -/
structure Linearizes (s₀ : S) (h : List (CallEvent I O R)) (order : List (Effected I O R))
    (s : S) : Prop where
  nodup : (order.map (·.id)).Nodup
  called : ∀ e ∈ order, call e.id e.op ∈ h
  returned : ∀ i r, ret i r ∈ h → ∃ e ∈ order, e.id = i ∧ e.result = r
  real_time : order.Pairwise fun d e => ¬ Precedes h e.id d.id
  legal : spec.Run s₀ order s

/-- Some order of the calls linearizes the history. -/
def Linearizable (s₀ : S) (h : List (CallEvent I O R)) : Prop :=
  ∃ order s, Linearizes spec s₀ h order s

variable {spec}

/-! ### Calls in progress -/

/-- How far a call is: not there, begun, or through with its effect but not returned. -/
inductive Progress (O R : Type*) where
  | idle
  | pending (op : O)
  | done (op : O) (r : R)

/-- What has happened of a call that is this far. -/
def Progress.InStep (h : List (CallEvent I O R)) (order : List (Effected I O R)) (i : I) :
    Progress O R → Prop
  | .idle => True
  | .pending op => call i op ∈ h ∧ (∀ r, ret i r ∉ h) ∧ ∀ e ∈ order, e.id ≠ i
  | .done op r => (∀ r', ret i r' ∉ h) ∧ ⟨i, op, r⟩ ∈ order

/-- The calls that have taken effect so far, in step with the progress of every call. -/
structure Tracked (spec : Spec S O R) (s₀ : S) (p : I → Progress O R)
    (h : List (CallEvent I O R)) (order : List (Effected I O R)) (s : S) : Prop where
  linearizes : Linearizes spec s₀ h order s
  progress : ∀ i, (p i).InStep h order i

/-- An event of another call changes nothing for this one. -/
lemma Progress.InStep.snoc {h : List (CallEvent I O R)} {order : List (Effected I O R)} {i : I}
    {q : Progress O R} (hq : q.InStep h order i) {x : CallEvent I O R}
    (hx : ∀ r, x ≠ .ret i r) : q.InStep (h ++ [x]) order i := by
  have hret : ∀ r, ret i r ∉ h → ret i r ∉ h ++ [x] := by
    intro r hr hmem
    rcases List.mem_append.mp hmem with hmem | hmem
    · exact hr hmem
    · exact hx r (List.mem_singleton.mp hmem).symm
  cases q with
  | idle => trivial
  | pending op => exact ⟨List.mem_append_left _ hq.1, fun r => hret r (hq.2.1 r), hq.2.2⟩
  | done op r => exact ⟨fun r' => hret r' (hq.1 r'), hq.2⟩

/-- The effect of another call changes nothing for this one. -/
lemma Progress.InStep.effect {h : List (CallEvent I O R)} {order : List (Effected I O R)} {i : I}
    {q : Progress O R} (hq : q.InStep h order i) {e : Effected I O R} (he : e.id ≠ i) :
    q.InStep h (order ++ [e]) i := by
  cases q with
  | idle => trivial
  | pending op =>
      refine ⟨hq.1, hq.2.1, fun d hd => ?_⟩
      rcases List.mem_append.mp hd with hd | hd
      · exact hq.2.2 d hd
      · rw [List.mem_singleton.mp hd]
        exact he
  | done op r => exact ⟨hq.1, List.mem_append_left _ hq.2⟩

namespace Tracked

variable {s₀ s s' : S} {p : I → Progress O R} {h : List (CallEvent I O R)}
  {order : List (Effected I O R)} {i : I} {op : O} {r : R}

/-- Before anything happened. -/
lemma start : Tracked spec s₀ (fun _ : I => .idle) [] [] s₀ where
  linearizes :=
    { nodup := List.nodup_nil
      called := fun _ he => by cases he
      returned := fun _ _ hr => by cases hr
      real_time := List.Pairwise.nil
      legal := .nil }
  progress := fun _ => trivial

lemma linearizable (ht : Tracked spec s₀ p h order s) : Linearizable spec s₀ h :=
  ⟨order, s, ht.linearizes⟩

/-- The environment moves. -/
lemma tau (ht : Tracked spec s₀ p h order s) (hs : spec.tau s s') :
    Tracked spec s₀ p h order s' :=
  ⟨{ ht.linearizes with legal := .tau ht.linearizes.legal hs }, ht.progress⟩

variable [DecidableEq I]

/-- A call that is further now, with nothing lost for the others. -/
lemma forall_update {h : List (CallEvent I O R)} {order : List (Effected I O R)}
    {q : Progress O R} (hother : ∀ j, j ≠ i → (p j).InStep h order j)
    (hself : q.InStep h order i) : ∀ j, (Function.update p i q j).InStep h order j := by
  intro j
  by_cases hji : j = i
  · rw [hji, Function.update_self]
    exact hself
  · rw [Function.update_of_ne hji]
    exact hother j hji

/-- A call with a new number begins. -/
lemma call (ht : Tracked spec s₀ p h order s) (hfresh : ∀ op', CallEvent.call i op' ∉ h) :
    Tracked spec s₀ (Function.update p i (.pending op)) (h ++ [.call i op]) order s := by
  have hno : ∀ e ∈ order, e.id ≠ i := by
    rintro e he rfl
    exact hfresh _ (ht.linearizes.called e he)
  have hret : ∀ r, CallEvent.ret i r ∉ h := by
    intro r hr
    obtain ⟨e, he, hid, -⟩ := ht.linearizes.returned i r hr
    exact hno e he hid
  refine ⟨⟨ht.linearizes.nodup, fun e he => List.mem_append_left _ (ht.linearizes.called e he),
    fun j r hr => ht.linearizes.returned j r (by simpa using hr), ?_, ht.linearizes.legal⟩,
    forall_update (fun j _ => (ht.progress j).snoc (by simp)) ?_⟩
  · refine ht.linearizes.real_time.imp_of_mem fun hd _ hnot hp => ?_
    rcases precedes_snoc.mp hp with hp | ⟨-, op', heq⟩
    · exact hnot hp
    · exact hno _ hd (CallEvent.call.inj heq).1.symm
  · exact ⟨by simp, fun r => by simpa using hret r, hno⟩

/-- A call takes effect. -/
lemma commit (ht : Tracked spec s₀ p h order s) (hi : p i = .pending op)
    (hnext : spec.next s op r s') :
    Tracked spec s₀ (Function.update p i (.done op r)) h (order ++ [⟨i, op, r⟩]) s' := by
  have hstep := ht.progress i
  rw [hi] at hstep
  obtain ⟨hcall, hret, hno⟩ := hstep
  refine ⟨⟨?_, fun e he => ?_, fun j r' hr => ?_, ?_, .next ht.linearizes.legal hnext⟩,
    forall_update (fun j hji => (ht.progress j).effect (Ne.symm hji)) ⟨hret, by simp⟩⟩
  · rw [List.map_append, List.map_singleton, List.nodup_append]
    refine ⟨ht.linearizes.nodup, List.nodup_singleton _, fun a ha b hb => ?_⟩
    obtain ⟨e, he, rfl⟩ := List.mem_map.mp ha
    rw [List.mem_singleton.mp hb]
    exact hno e he
  · rcases List.mem_append.mp he with he | he
    · exact ht.linearizes.called e he
    · rw [List.mem_singleton.mp he]
      exact hcall
  · obtain ⟨e, he, hid, hres⟩ := ht.linearizes.returned j r' hr
    exact ⟨e, List.mem_append_left _ he, hid, hres⟩
  · -- the call has not returned, so it precedes no other
    rw [List.pairwise_append]
    refine ⟨ht.linearizes.real_time, List.pairwise_singleton _ _, fun d _ e he hp => ?_⟩
    rw [List.mem_singleton.mp he] at hp
    obtain ⟨r', hr'⟩ := hp.returned
    exact hret r' hr'

/-- A call returns with the answer its effect gave. -/
lemma ret (ht : Tracked spec s₀ p h order s) (hi : p i = .done op r) :
    Tracked spec s₀ (Function.update p i .idle) (h ++ [.ret i r]) order s := by
  have hstep := ht.progress i
  rw [hi] at hstep
  obtain ⟨-, hmem⟩ := hstep
  refine ⟨⟨ht.linearizes.nodup, fun e he => List.mem_append_left _ (ht.linearizes.called e he),
    fun j r' hr => ?_, ?_, ht.linearizes.legal⟩,
    forall_update (fun j hji => (ht.progress j).snoc fun r' heq => ?_) trivial⟩
  · rcases List.mem_append.mp hr with hr | hr
    · exact ht.linearizes.returned j r' hr
    · obtain ⟨rfl, rfl⟩ := CallEvent.ret.inj (List.mem_singleton.mp hr)
      exact ⟨_, hmem, rfl, rfl⟩
  · refine ht.linearizes.real_time.imp fun hnot hp => ?_
    rcases precedes_snoc.mp hp with hp | ⟨-, op', heq⟩
    · exact hnot hp
    · cases heq
  · exact hji (CallEvent.ret.inj heq).1.symm

/-- A call is given up: it never returns. -/
lemma drop (ht : Tracked spec s₀ p h order s) :
    Tracked spec s₀ (Function.update p i .idle) h order s :=
  ⟨ht.linearizes, forall_update (fun j _ => ht.progress j) trivial⟩

/-- A call takes effect and returns at once. -/
lemma answer (ht : Tracked spec s₀ p h order s) (hi : p i = .pending op)
    (hnext : spec.next s op r s') :
    Tracked spec s₀ (Function.update p i .idle) (h ++ [.ret i r]) (order ++ [⟨i, op, r⟩]) s' := by
  have hdone := (ht.commit hi hnext).ret (Function.update_self _ _ _)
  rwa [Function.update_idem] at hdone

end Tracked

/-! ### Answers that are settled before they are known -/

/-- What one step of call `i` can be: it begins, takes effect, returns, or several of these at
once; the events it adds to the history, and how far the call is before and after. -/
inductive Progress.Moves (spec : Spec S O R) (i : I) :
    Progress O R → S → List (CallEvent I O R) → Progress O R → S → Prop
  | wait (q : Progress O R) (s : S) : Moves spec i q s [] q s
  | call (op : O) (s : S) : Moves spec i .idle s [.call i op] (.pending op) s
  | call_answer {op : O} {r : R} {s s' : S} (hnext : spec.next s op r s') :
      Moves spec i .idle s [.call i op, .ret i r] .idle s'
  | commit {op : O} {r : R} {s s' : S} (hnext : spec.next s op r s') :
      Moves spec i (.pending op) s [] (.done op r) s'
  | answer {op : O} {r : R} {s s' : S} (hnext : spec.next s op r s') :
      Moves spec i (.pending op) s [.ret i r] .idle s'
  | ret (op : O) (r : R) (s : S) : Moves spec i (.done op r) s [.ret i r] .idle s

section Foretold

variable [DecidableEq I] {s₀ s s' : S} {p : I → Progress O R} {h ev : List (CallEvent I O R)}
  {order : List (Effected I O R)} {i : I} {q q' : Progress O R}

/-- A step of a call; a call that begins has a new number. -/
lemma Tracked.moves (ht : Tracked spec s₀ p h order s) (hi : p i = q)
    (hmove : q.Moves spec i s ev q' s')
    (hfresh : (∃ op, CallEvent.call i op ∈ ev) → ∀ op, CallEvent.call i op ∉ h) :
    ∃ order', Tracked spec s₀ (Function.update p i q') (h ++ ev) order' s' := by
  cases hmove with
  | wait =>
      refine ⟨order, ?_⟩
      rw [← hi, Function.update_eq_self, List.append_nil]
      exact ht
  | call op => exact ⟨order, ht.call (hfresh ⟨op, by simp⟩)⟩
  | @call_answer op r _ _ hnext =>
      have hcall : Tracked spec s₀ (Function.update p i (.pending op)) (h ++ [.call i op])
          order s :=
        ht.call (hfresh ⟨op, by simp⟩)
      have hdone := hcall.answer (Function.update_self _ _ _) hnext
      rw [Function.update_idem, List.append_assoc] at hdone
      exact ⟨_, hdone⟩
  | commit hnext =>
      rw [List.append_nil]
      exact ⟨_, ht.commit hi hnext⟩
  | answer hnext => exact ⟨_, ht.answer hi hnext⟩
  | ret op r => exact ⟨order, ht.ret hi⟩

/-- The calls that have taken effect, in step with the progress `p`, and also in step with every
other account of one call that `ahead` allows: what such a call will answer may have been
settled already, but which account is the right one comes out later. -/
structure Foretold (spec : Spec S O R) (s₀ : S) (p : I → Progress O R)
    (ahead : I → Progress O R → Prop) (h : List (CallEvent I O R)) (s : S) : Prop where
  now : ∃ order, Tracked spec s₀ p h order s
  ahead : ∀ i q, ahead i q → ∃ order, Tracked spec s₀ (Function.update p i q) h order s

namespace Foretold

variable {ahead : I → Progress O R → Prop} {A : Progress O R → Prop}

lemma start : Foretold spec s₀ (fun _ : I => .idle) (fun _ _ => False) [] s₀ where
  now := ⟨[], .start⟩
  ahead := fun _ _ hq => hq.elim

lemma linearizable (hf : Foretold spec s₀ p ahead h s) : Linearizable spec s₀ h := by
  obtain ⟨order, ht⟩ := hf.now
  exact ht.linearizable

/-- Every account of call `i` is tracked. -/
lemma account (hf : Foretold spec s₀ p ahead h s) (hq : q = p i ∨ ahead i q) :
    ∃ order, Tracked spec s₀ (Function.update p i q) h order s := by
  rcases hq with rfl | hq
  · rw [Function.update_eq_self]
    exact hf.now
  · exact hf.ahead i q hq

/-- **A step of call `i`** goes on from one of its accounts, and from then on allows the accounts
in `A`, each of which goes on from one of the old ones as well. -/
lemma step (hf : Foretold spec s₀ p ahead h s) (hq : q = p i ∨ ahead i q)
    (hmove : q.Moves spec i s ev q' s')
    (hA : ∀ r', A r' → ∃ r, (r = p i ∨ ahead i r) ∧ r.Moves spec i s ev r' s')
    (hothers : q = p i ∨ ∀ j ≠ i, ∀ r, ¬ ahead j r)
    (hfresh : (∃ op, CallEvent.call i op ∈ ev) → ∀ op, CallEvent.call i op ∉ h) :
    Foretold spec s₀ (Function.update p i q') (Function.update ahead i A) (h ++ ev) s' := by
  have hself : ∀ {r r'}, (r = p i ∨ ahead i r) → r.Moves spec i s ev r' s' →
      ∃ order, Tracked spec s₀ (Function.update p i r') (h ++ ev) order s' := by
    intro r r' hr hm
    obtain ⟨order, ht⟩ := hf.account hr
    obtain ⟨order', ht'⟩ := ht.moves (Function.update_self _ _ _) hm hfresh
    rw [Function.update_idem] at ht'
    exact ⟨order', ht'⟩
  refine ⟨hself hq hmove, fun j r hr => ?_⟩
  by_cases hj : j = i
  · subst hj
    rw [Function.update_self] at hr
    obtain ⟨r₀, hr₀, hm⟩ := hA r hr
    rw [Function.update_idem]
    exact hself hr₀ hm
  · rw [Function.update_of_ne hj] at hr
    obtain rfl := hothers.resolve_right fun hno => hno j hj r hr
    obtain ⟨order, ht⟩ := hf.ahead j r hr
    obtain ⟨order', ht'⟩ := ht.moves (Function.update_of_ne (Ne.symm hj) _ _) hmove hfresh
    rw [Function.update_comm hj] at ht'
    exact ⟨order', ht'⟩

end Foretold

end Foretold

/-! ### Calls as requests in flight -/

section Flight

variable {T P A : Type*}

/-- A server with requests in flight, each so far as `progress` says, in step with an order of
the calls that have taken effect. -/
def InFlight (spec : Spec S O R) (s₀ : S) (progress : I → T → Progress O R)
    (tasks : I → Option T) (h : List (CallEvent I O R)) (s : S) : Prop :=
  ∃ order, Tracked spec s₀ (fun i => (tasks i).elim .idle (progress i)) h order s

/-- The request in flight after a segment: it goes on as `mk p`, or it has been answered. -/
def taskAfter (mk : P → T) (next : P ⊕ A) : Option T :=
  next.elim (fun p => some (mk p)) fun _ => none

/-- What a segment of request `i` adds to the history. -/
def eventsAfter (i : I) (answer : A → R) (next : P ⊕ A) : List (CallEvent I O R) :=
  next.elim (fun _ => []) fun a => [.ret i (answer a)]

namespace InFlight

variable {s₀ s s' : S} {progress : I → T → Progress O R} {tasks : I → Option T}
  {h : List (CallEvent I O R)} {i : I} {op : O} {r : R} {t : T}

lemma start : InFlight spec s₀ progress (fun _ : I => none) [] s₀ := ⟨[], .start⟩

lemma linearizable (hf : InFlight spec s₀ progress tasks h s) : Linearizable spec s₀ h := by
  obtain ⟨order, ht⟩ := hf
  exact ht.linearizable

lemma tau (hf : InFlight spec s₀ progress tasks h s) (hs : spec.tau s s') :
    InFlight spec s₀ progress tasks h s' := by
  obtain ⟨order, ht⟩ := hf
  exact ⟨order, ht.tau hs⟩

variable [DecidableEq I]

/-- How far everyone is after a change of one request in flight. -/
lemma elim_update (task : Option T) :
    (fun j => (Function.update tasks i task j).elim .idle (progress j))
      = Function.update (fun j => (tasks j).elim .idle (progress j)) i
          (task.elim .idle (progress i)) := by
  funext j
  by_cases hj : j = i
  · subst hj
    rw [Function.update_self, Function.update_self]
  · rw [Function.update_of_ne hj, Function.update_of_ne hj]

/-- A request arrives; the account of how far the others are may be another one. -/
lemma call (hf : InFlight spec s₀ progress tasks h s) {progress' : I → T → Progress O R}
    (heq : ∀ j t, j ≠ i → progress' j t = progress j t)
    (hfresh : ∀ op', CallEvent.call i op' ∉ h) (hp : progress' i t = .pending op) :
    InFlight spec s₀ progress' (Function.update tasks i (some t)) (h ++ [.call i op]) s := by
  obtain ⟨order, ht⟩ := hf
  have hsame : (fun j => (Function.update tasks i (some t) j).elim .idle (progress' j))
      = Function.update (fun j => (tasks j).elim .idle (progress j)) i (.pending op) := by
    funext j
    by_cases hj : j = i
    · subst hj
      rw [Function.update_self, Function.update_self, Option.elim_some, hp]
    · rw [Function.update_of_ne hj, Function.update_of_ne hj]
      cases tasks j with
      | none => rfl
      | some t => exact heq j t hj
  refine ⟨order, ?_⟩
  rw [hsame]
  exact ht.call hfresh

/-- A request is dropped. -/
lemma drop (hf : InFlight spec s₀ progress tasks h s) :
    InFlight spec s₀ progress (Function.update tasks i none) h s := by
  obtain ⟨order, ht⟩ := hf
  refine ⟨order, ?_⟩
  rw [elim_update]
  exact ht.drop

variable {mk : P → T} {answer : A → R} {next : P ⊕ A} {p : P} {a : A}

/-- A request goes on and is no further as a call. -/
lemma wait (hf : InFlight spec s₀ progress tasks h s) (hi : tasks i = some t)
    (hnext : next = .inl p) (hp : progress i (mk p) = progress i t) :
    InFlight spec s₀ progress (Function.update tasks i (taskAfter mk next))
      (h ++ eventsAfter i answer next) s := by
  obtain ⟨order, ht⟩ := hf
  refine ⟨order, ?_⟩
  have hsame : progress i t = (tasks i).elim .idle (progress i) := by
    rw [hi, Option.elim_some]
  rw [hnext, taskAfter, eventsAfter, Sum.elim_inl, Sum.elim_inl, List.append_nil, elim_update,
    Option.elim_some, hp, hsame, Function.update_eq_self]
  exact ht

/-- A request takes effect and goes on. -/
lemma commit (hf : InFlight spec s₀ progress tasks h s) (hi : tasks i = some t)
    (hnext : next = .inl p) (hp : progress i t = .pending op)
    (hp' : progress i (mk p) = .done op r) (hs : spec.next s op r s') :
    InFlight spec s₀ progress (Function.update tasks i (taskAfter mk next))
      (h ++ eventsAfter i answer next) s' := by
  obtain ⟨order, ht⟩ := hf
  refine ⟨order ++ [⟨i, op, r⟩], ?_⟩
  rw [hnext, taskAfter, eventsAfter, Sum.elim_inl, Sum.elim_inl, List.append_nil, elim_update,
    Option.elim_some, hp']
  refine ht.commit ?_ hs
  rw [hi, Option.elim_some, hp]

/-- A request takes effect and is answered. -/
lemma answer_now (hf : InFlight spec s₀ progress tasks h s) (hi : tasks i = some t)
    (hnext : next = .inr a) (hp : progress i t = .pending op)
    (hs : spec.next s op (answer a) s') :
    InFlight spec s₀ progress (Function.update tasks i (taskAfter mk next))
      (h ++ eventsAfter i answer next) s' := by
  obtain ⟨order, ht⟩ := hf
  refine ⟨order ++ [⟨i, op, answer a⟩], ?_⟩
  rw [hnext, taskAfter, eventsAfter, Sum.elim_inr, Sum.elim_inr, elim_update]
  refine ht.answer ?_ hs
  rw [hi, Option.elim_some, hp]

/-- A request that has taken effect is answered. -/
lemma answer_later (hf : InFlight spec s₀ progress tasks h s) (hi : tasks i = some t)
    (hnext : next = .inr a) (hp : progress i t = .done op (answer a)) :
    InFlight spec s₀ progress (Function.update tasks i (taskAfter mk next))
      (h ++ eventsAfter i answer next) s := by
  obtain ⟨order, ht⟩ := hf
  refine ⟨order, ?_⟩
  have hdone : (tasks i).elim .idle (progress i) = .done op (answer a) := by
    rw [hi, Option.elim_some, hp]
  rw [hnext, taskAfter, eventsAfter, Sum.elim_inr, Sum.elim_inr, elim_update]
  exact ht.ret hdone

end InFlight

end Flight

end Linearizations
