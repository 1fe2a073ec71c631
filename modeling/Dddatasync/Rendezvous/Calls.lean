import Dddatasync.Library.Linearizable
import Dddatasync.Rendezvous.AccountMoves

/-!
The calls of the Rust rendezvous server as a history: every request that arrived and every
answer that was given, stamped with the clock.

* `Timed`, `Timed.step`: the server of `step` at clock readings that never go back, with the
  history of its calls beside it.
* `timed_cases`: the five kinds of step, with what each adds to the history.
* `Timed.Numbered`: a new request gets a number no call had.
-/

namespace Rendezvous

open Runs

/-- What an entry of the log is in the history of calls. -/
def Entry.event (clock : ℕ) : Entry → Option (CallEvent ℕ (Request × ℕ) (Response × ℕ))
  | .arrived i request => some (.call i (request, clock))
  | .responded i response => some (.ret i (response, clock))
  | _ => none

/-- The server, the clock it read last and the calls so far. -/
structure Timed where
  config : Config
  clock : ℕ
  calls : List (CallEvent ℕ (Request × ℕ) (Response × ℕ))

/-- The clock after an action: only a handler that runs reads it. -/
def Action.clock (clock : ℕ) : Action → ℕ
  | .run _ read => read.now
  | _ => clock

/-- One step of the server, unless the clock goes back. -/
def Timed.step (x : Externals) (t : Timed) (a : Action) : Option Timed :=
  if a.clock t.clock < t.clock then none
  else (Rendezvous.step x t.config a).map fun c =>
    { config := c
      clock := a.clock t.clock
      calls := t.calls
        ++ (c.log.drop t.config.log.length).filterMap (Entry.event (a.clock t.clock)) }

/-- `make_state`, with nothing in flight and no call made. -/
def Timed.start : Timed := ⟨Rendezvous.start, 0, []⟩

variable {x : Externals} {read : Reading} {i : ℕ} {request : Request} {s : AppState} {pc : Pc}
  {o : Outcome}

/-- A segment enters no arrival and no answer in the history by itself. -/
lemma entries_event (clock : ℕ) (hseg : segment x read i s request pc = some o) :
    o.entries.filterMap (Entry.event clock) = [] := by
  cases account_segment hseg with
  | hashed | linked | taken | approved => rfl
  | inserted req account password hname hemail => rfl
  | other _ _ _ _ _ hentries =>
      refine List.filterMap_eq_nil_iff.mpr fun e he => ?_
      have helse := hentries e he
      cases e <;> first | rfl | exact helse.elim

/-- What a segment adds to the history of calls. -/
lemma history_event (clock : ℕ) (hseg : segment x read i s request pc = some o) :
    (o.history i).filterMap (Entry.event clock) = eventsAfter i (fun r => (r, clock)) o.next := by
  have hnone := entries_event clock hseg
  rw [Outcome.history]
  cases o.next with
  | inl pc' => exact hnone
  | inr r =>
      rw [List.filterMap_append, hnone]
      rfl

/-- A step of the server with a history: a request arrives; a handler runs up to its next lock
or to its answer; one is dropped; or an operator sets a status. -/
lemma timed_cases {t t' : Timed} {a : Action} (hs : t.step x a = some t') :
    (∃ request, t' = ⟨{ t.config with
          tasks := Function.update t.config.tasks t.config.next (some ⟨request, .start⟩)
          next := t.config.next + 1
          log := t.config.log ++ [.arrived t.config.next request] },
        t.clock, t.calls ++ [.call t.config.next (request, t.clock)]⟩)
      ∨ (∃ i read request pc o, t.clock ≤ read.now ∧ t.config.tasks i = some ⟨request, pc⟩
          ∧ read.token ∉ t.config.generated
          ∧ segment x read i t.config.state request pc = some o
          ∧ t' = ⟨t.config.after i request read.token o, read.now,
            t.calls ++ eventsAfter i (fun r => (r, read.now)) o.next⟩)
      ∨ (∃ i, t' = { t with config := { t.config with
          tasks := Function.update t.config.tasks i none } })
      ∨ ∃ u status account, t.config.state.users.lookup u = some account
          ∧ t' = { t with config := { t.config with state := { t.config.state with
              users := t.config.state.users.insert u (account.withStatus status) } } } := by
  rw [Timed.step] at hs
  split_ifs at hs with hclock
  obtain ⟨c, hc, rfl⟩ := Option.map_eq_some_iff.mp hs
  rcases step_cases hc with ⟨request, rfl, rfl⟩
    | ⟨i, read, request, pc, o, rfl, htask, hfresh, ho, rfl⟩ | ⟨i, rfl, rfl⟩
    | ⟨u, status, account, rfl, hu, rfl⟩
  · refine .inl ⟨request, ?_⟩
    simp only [List.drop_left]
    rfl
  · refine .inr (.inl ⟨i, read, request, pc, o, not_lt.mp hclock, htask, hfresh, ho, ?_⟩)
    rw [← history_event read.now ho]
    simp only [Config.after, List.drop_left]
    rfl
  · refine .inr (.inr (.inl ⟨i, ?_⟩))
    simp only [List.drop_length, List.filterMap_nil, List.append_nil]
    rfl
  · refine .inr (.inr (.inr ⟨u, status, account, hu, ?_⟩))
    simp only [List.drop_length, List.filterMap_nil, List.append_nil]
    rfl

/-- The requests in flight after a segment. -/
lemma tasks_of_after {c : Config} {token : String} : (c.after i request token o).tasks
    = Function.update c.tasks i (taskAfter (Task.mk request) o.next) := by
  rw [Config.after]
  cases o.next <;> rfl

/-- Every call has a number below the next one. -/
def Timed.Numbered (t : Timed) : Prop := ∀ i op, .call i op ∈ t.calls → i < t.config.next

lemma Timed.Numbered.step {t t' : Timed} {a : Action} (h : t.Numbered)
    (hs : t.step x a = some t') : t'.Numbered := by
  intro j op hj
  rcases timed_cases hs with ⟨request, rfl⟩ | ⟨i, read, request, pc, o, -, -, -, -, rfl⟩
    | ⟨i, rfl⟩ | ⟨u, status, account, -, rfl⟩
  · simp only [List.mem_append, List.mem_singleton, CallEvent.call.injEq] at hj
    rcases hj with hj | ⟨rfl, -⟩
    · exact (h j op hj).trans (Nat.lt_succ_self _)
    · exact Nat.lt_succ_self _
  · refine h j op ?_
    rcases List.mem_append.mp hj with hj | hj
    · exact hj
    · cases hnext : o.next <;> simp [hnext, eventsAfter] at hj
  · exact h j op hj
  · exact h j op hj

end Rendezvous
