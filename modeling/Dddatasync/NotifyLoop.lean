import Dddatasync.Pushing

/-!
The loop of `push` in `src/sync.rs` over its peers, in any run with the handlers of the peers.

* `called`, `attempts`: the peers that `notify_peer` was called for, in order.
* `Progress`: what a move of the sender does to where it stands, `pushStep_progress`.
* `LoopInv`: the peers notified so far are the first ones, each once; `loopInv_run`.
* `PushPc.left`: how many moves the sender has left at most; `push_bounded`, `push_enabled`:
  it is never stuck and its moves are bounded, whatever the peers do.
-/

namespace Dddatasync

open Fs OsString Runs

variable {μ π C NodeId Sock Relay Hash : Type*}

namespace PushPc

/-- `push` has not failed before its first offer. -/
def setUp : PushPc C → Bool
  | .stopped (.error e) => e = .noFileName
  | _ => true

/-- `push` has returned. -/
def isOver : PushPc C → Bool
  | .finished _ _ _ | .stopped _ => true
  | _ => false

end PushPc

/-- The place of a call within `notify_peer`. -/
def NotifyPc.order : NotifyPc → ℕ
  | .connecting => 0
  | .opening => 1
  | .writing => 2
  | .waiting => 3

/-- How many moves a sender with `n` peers has left at most. -/
def PushPc.left (n : ℕ) : PushPc C → ℕ
  | .start => 4 * n + 2
  | .preparing _ => 4 * n + 1
  | .notifying _ _ call results => 4 * (n - results.length) - call.order
  | .finished _ _ _ | .stopped _ => 0

namespace Pushing

variable (w : Pushing μ π C NodeId Sock Relay Hash)

/-- The peer for which `notify_peer` is called in a move. -/
def called : TrafficAct μ C Hash → Traffic μ π C Hash → Option π
  | .push _, s' =>
      match s'.push with
      | .notifying _ _ .connecting results => w.peers[results.length]?
      | _ => none
  | .handler _ _, _ => none

/-- What a move of the sender does to where it stands. -/
inductive Progress : PushPc C → PushPc C → Prop
  | empty (hpeers : w.peers = []) : Progress .start (.stopped (.ok ()))
  | unnamed (hpeers : w.peers ≠ []) (hname : (fileName w.path).bind toStr = none) :
      Progress .start (.stopped (.error .noFileName))
  | named (f : String) (hpeers : w.peers ≠ []) (hname : (fileName w.path).bind toStr = some f) :
      Progress .start (.preparing f)
  | failed (f : String) (e : PushError) (he : e ≠ .noFileName) :
      Progress (.preparing f) (.stopped (.error e))
  | imported (f : String) (c : C) : Progress (.preparing f) (.notifying f c .connecting [])
  | further (f : String) (c : C) (call call' : NotifyPc)
      (results : List (Except NotifyError Unit)) (horder : call.order < call'.order) :
      Progress (.notifying f c call results) (.notifying f c call' results)
  | returned (f : String) (c : C) (call : NotifyPc) (results : List (Except NotifyError Unit))
      (r : Except NotifyError Unit) :
      Progress (.notifying f c call results) (w.notified f c results r)

variable [LinearOrder Sock] [LinearOrder Relay] [DecidableEq μ]

variable {w} {s s' : Traffic μ π C Hash}

lemma pushStep_progress {move : PushMove C} (h : w.pushStep s s.push move = some s') :
    w.Progress s.push s'.push := by
  have hmoved := pushStep_moved h
  generalize s.push = pc at hmoved
  cases hmoved with
  | empty hpeers => exact .empty hpeers
  | unnamed hpeers hname => exact .unnamed hpeers hname
  | named f hpeers hname => exact .named f hpeers hname
  | failed f e he => exact .failed f e he
  | imported f c => exact .imported f c
  | connected f c results | opened f c results | wrote f c results =>
      exact .further f c _ _ results (by decide)
  | acked f c results ack => exact .returned f c _ results _
  | lost f c call results e => exact .returned f c call results _

/-! ### In order, and each once -/

/-- What a `push` that stands at `pc` has done: these are the peers it has notified, and it is
about to notify the next. -/
def LoopInv (w : Pushing μ π C NodeId Sock Relay Hash) (notified : List π) : PushPc C → Prop
  | .start => notified = []
  | .preparing _ => notified = [] ∧ w.peers ≠ [] ∧ ((fileName w.path).bind toStr).isSome = true
  | .notifying _ _ _ results =>
      results.length < w.peers.length ∧ notified = w.peers.take (results.length + 1)
        ∧ ((fileName w.path).bind toStr).isSome = true
  | .finished _ _ _ =>
      notified = w.peers ∧ w.peers ≠ [] ∧ ((fileName w.path).bind toStr).isSome = true
  | .stopped r =>
      notified = [] ∧ (r = .ok () → w.peers = [])
        ∧ (r = .error .noFileName → (fileName w.path).bind toStr = none)

/-- One move of the sender. -/
lemma loopInv_push {move : PushMove C} {notified : List π}
    (h : w.pushStep s s.push move = some s') (hinv : w.LoopInv notified s.push) :
    w.LoopInv (notified ++ (w.called (.push move) s').toList) s'.push := by
  have hprog := pushStep_progress h
  rw [called]
  generalize s'.push = pc' at hprog ⊢
  generalize s.push = pc at hprog hinv
  cases hprog with
  | empty hpeers =>
      obtain rfl : notified = [] := hinv
      exact ⟨rfl, fun _ => hpeers, by simp⟩
  | unnamed hpeers hname =>
      obtain rfl : notified = [] := hinv
      exact ⟨rfl, by simp, fun _ => hname⟩
  | named f hpeers hname =>
      obtain rfl : notified = [] := hinv
      exact ⟨rfl, hpeers, by rw [hname]; rfl⟩
  | failed f e he =>
      obtain ⟨rfl, -, -⟩ := hinv
      exact ⟨rfl, by simp, fun heq => absurd (Except.error.inj heq) he⟩
  | imported f c =>
      obtain ⟨rfl, hpeers, hname⟩ := hinv
      have hlen := List.length_pos_iff.mpr hpeers
      refine ⟨hlen, ?_, hname⟩
      simp [List.getElem?_eq_getElem hlen, List.take_one, List.head?_eq_getElem?]
  | further f c call call' results horder =>
      obtain ⟨hlen, rfl, hname⟩ := hinv
      refine ⟨hlen, ?_, hname⟩
      cases call' with
      | connecting => simp [NotifyPc.order] at horder
      | opening | writing | waiting => simp
  | returned f c call results r =>
      obtain ⟨hlen, rfl, hname⟩ := hinv
      rw [Pushing.notified]
      split_ifs with hmore
      · refine ⟨by rwa [List.length_append], ?_, hname⟩
        simp [List.getElem?_eq_getElem hmore, List.take_add_one]
      · refine ⟨?_, List.ne_nil_of_length_pos (by omega), hname⟩
        simp [List.take_of_length_le (Nat.not_lt.mp hmore)]

variable [DecidableEq π] [DecidableEq Hash]

variable (w) in
/-- The peers for which `notify_peer` is called in a run, in order. -/
def attempts (s : Traffic μ π C Hash) (acts : List (TrafficAct μ C Hash)) : List π :=
  (trace w.step s acts).filterMap fun t => w.called t.2.1 t.2.2

lemma handlerStep_push {l : Link μ} {move : HandlerMove C Hash}
    (h : w.handlerStep s l (s.handler l) move = some s') : s'.push = s.push := by
  cases handlerStep_stepped h <;> rfl

/-- **The loop over the peers.**  In any run, the peers notified so far are the first ones in
their order, each of them once, whatever happens at the peers. -/
lemma loopInv_run {store : π → FileSystem C} {acts : List (TrafficAct μ C Hash)}
    (hrun : exec w.step (Traffic.init store) acts = some s) :
    w.LoopInv (w.attempts (Traffic.init store) acts) s.push := by
  have h0 : w.LoopInv [] (PushPc.start : PushPc C) := rfl
  refine history_invariant (I := fun done t =>
    w.LoopInv (w.attempts (Traffic.init store) done) t.push) (s := Traffic.init store) h0 ?_ hrun
  intro done a t t' _ hdone hinv ha
  rw [attempts, trace_snoc hdone ha, List.filterMap_append, ← attempts]
  have hlast : [(t, a, t')].filterMap (fun t => w.called t.2.1 t.2.2)
      = (w.called a t').toList := by
    cases hc : w.called a t' <;> simp [hc]
  rw [hlast]
  cases a with
  | push move => exact loopInv_push ha hinv
  | handler l move =>
      rw [handlerStep_push ha, called, Option.toList_none, List.append_nil]
      exact hinv

/-! ### Its end -/

omit [DecidableEq π] [DecidableEq Hash] [LinearOrder Sock] [LinearOrder Relay] [DecidableEq μ] in
/-- Every move of the sender brings it nearer to its end. -/
lemma Progress.left_lt {notified : List π} {pc pc' : PushPc C} (h : w.Progress pc pc')
    (hinv : w.LoopInv notified pc) : pc'.left w.peers.length < pc.left w.peers.length := by
  cases h with
  | empty | unnamed | named | failed | imported => simp [PushPc.left, NotifyPc.order]
  | further f c call call' results horder =>
      have hlen := hinv.1
      have hlast : call'.order ≤ 3 := by cases call' <;> decide
      simp only [PushPc.left]
      omega
  | returned f c call results r =>
      have hlen := hinv.1
      have hlast : call.order ≤ 3 := by cases call <;> decide
      have hfirst : NotifyPc.connecting.order = 0 := rfl
      rw [Pushing.notified]
      split_ifs with hmore
      · simp only [PushPc.left, List.length_append, List.length_singleton, hfirst]
        omega
      · simp only [PushPc.left]
        omega

/-- **The sender comes to an end.**  Its moves are bounded by four for each peer and two
before, whatever the peers do. -/
lemma push_bounded {store : π → FileSystem C} {acts : List (TrafficAct μ C Hash)}
    (hrun : exec w.step (Traffic.init store) acts = some s) :
    acts.countP (fun a => a matches .push _) + s.push.left w.peers.length
      ≤ 4 * w.peers.length + 2 := by
  refine history_invariant (I := fun done (t : Traffic μ π C Hash) =>
    done.countP (fun a => a matches .push _) + t.push.left w.peers.length
      ≤ 4 * w.peers.length + 2) (by simp [Traffic.init, PushPc.left]) ?_ hrun
  intro done a t t' _ hdone hle ha
  rw [List.countP_append]
  cases a with
  | push move =>
      have hlt := (pushStep_progress ha).left_lt (loopInv_run hdone)
      simp only [List.countP_singleton, if_true]
      omega
  | handler l move =>
      rw [handlerStep_push ha]
      simpa using hle

omit [DecidableEq π] [DecidableEq Hash] in
/-- The sender is never stuck. -/
lemma push_enabled [Inhabited C] (hover : s.push.isOver = false) :
    ∃ move s', w.pushStep s s.push move = some s' ∧ s'.push.setUp = true := by
  cases hpush : s.push with
  | start =>
      by_cases hpeers : w.peers = []
      · exact ⟨.go, _, by rw [Pushing.pushStep, if_pos hpeers], rfl⟩
      · cases hname : (fileName w.path).bind toStr with
        | none =>
            exact ⟨.go, _, by rw [Pushing.pushStep, if_neg hpeers, hname], by simp [PushPc.setUp]⟩
        | some f => exact ⟨.go, _, by rw [Pushing.pushStep, if_neg hpeers, hname], rfl⟩
  | preparing f => exact ⟨.imported default, _, rfl, rfl⟩
  | notifying f c call results =>
      have hset : ∀ r, (w.notified f c results r).setUp = true := by
        intro r
        rw [Pushing.notified]
        split_ifs <;> rfl
      cases call with
      | connecting => exact ⟨.fail .connectTimeout, _, rfl, hset _⟩
      | opening => exact ⟨.fail (.openBi ""), _, rfl, hset _⟩
      | writing => exact ⟨.fail (.writeOffer ""), _, rfl, hset _⟩
      | waiting => exact ⟨.fail .ackTimeout, _, rfl, hset _⟩
  | finished | stopped =>
      rw [hpush] at hover
      cases hover

/-- Every run of the sender goes on to an end. -/
lemma push_ends [Inhabited C] {store : π → FileSystem C} {acts : List (TrafficAct μ C Hash)}
    (hrun : exec w.step (Traffic.init store) acts = some s) (hset : s.push.setUp = true) :
    ∃ more s', exec w.step (Traffic.init store) (acts ++ more) = some s'
      ∧ s'.push.isOver = true ∧ s'.push.setUp = true := by
  induction hleft : s.push.left w.peers.length using Nat.strong_induction_on
    generalizing s acts with
  | _ n ih =>
      cases hover : s.push.isOver with
      | true => exact ⟨[], s, by rwa [List.append_nil], hover, hset⟩
      | false =>
          obtain ⟨move, t, ht, hset'⟩ := push_enabled (w := w) hover
          have hrun' : exec w.step (Traffic.init store) (acts ++ [.push move]) = some t := by
            rw [exec_snoc, hrun]
            exact ht
          have hlt := (pushStep_progress ht).left_lt (loopInv_run hrun)
          obtain ⟨more, s', hs', hend⟩ := ih _ (hleft ▸ hlt) hrun' hset' rfl
          exact ⟨.push move :: more, s', by rwa [List.append_cons], hend⟩

end Pushing

end Dddatasync
