import Dddatasync.Library.Runs
import Dddatasync.Rendezvous.PyServer

/-!
`verify_view` of the Python server against the admin actions, one database statement at a
time.

* `Verifying`, `Statement`, `execute`: any number of views between their `get` and their
  `save`, and the two admin actions.
* `blocked_step`: a statement other than a save keeps an account blocked, unless an admin
  approves it; `not_blocked_save`: a save does not.
* `blocked_stays_iff`: along a run every blocked account stays blocked until an admin
  approves it, exactly if no view saves an account that is blocked by then.
* `blocked_after_get`: such an account was blocked after the view had read it.
-/

namespace Rendezvous

open Runs

/-- The table of accounts, and for each view between its `get` and its `save` the primary
key of the account it holds. -/
structure Verifying where
  users : List UserRow
  views : ℕ → Option ℕ

/-- A database statement: the `get` or the `save` of view `i`, or an admin action on the
selected rows. -/
inductive Statement where
  | get (i : ℕ) (token : String)
  | save (i : ℕ)
  | block (selected : List ℕ)
  | approve (selected : List ℕ)
  deriving DecidableEq

/-- One statement.  A view that does not find its account answers at once. -/
def execute (s : Verifying) : Statement → Option Verifying
  | .get i token =>
      if (s.views i).isSome then none
      else
        match getPending s.users token with
        | [account] => some { s with views := Function.update s.views i (some account.id) }
        | _ => some s
  | .save i =>
      (s.views i).map fun id =>
        ⟨saveApproved s.users id, Function.update s.views i none⟩
  | .block selected => some { s with users := blockAccounts s.users selected }
  | .approve selected => some { s with users := approveAccounts s.users selected }

/-- The account is blocked. -/
def Blocked (s : Verifying) (id : ℕ) : Prop :=
  ∃ row ∈ s.users, row.id = id ∧ row.status = .blocked

/-- The statement is a save of an account that is blocked. -/
def SavesBlocked (t : Verifying × Statement × Verifying) : Prop :=
  ∃ i id, t.2.1 = .save i ∧ t.1.views i = some id ∧ Blocked t.1 id

variable {s s' : Verifying} {a : Statement} {id : ℕ}

/-- A row that a statement rewrites keeps its key. -/
lemma blocked_map {users : List UserRow} {f : UserRow → UserRow}
    (hf : ∀ row ∈ users, row.id = id → row.status = .blocked →
      (f row).id = id ∧ (f row).status = .blocked)
    (h : ∃ row ∈ users, row.id = id ∧ row.status = .blocked) :
    ∃ row ∈ users.map f, row.id = id ∧ row.status = .blocked := by
  obtain ⟨row, hmem, hid, hblocked⟩ := h
  exact ⟨f row, List.mem_map_of_mem hmem, hf row hmem hid hblocked⟩

/-- What is not a save of the account keeps it blocked, unless an admin approves it. -/
lemma blocked_step (hs : execute s a = some s') (h : Blocked s id)
    (hsave : ¬ SavesBlocked (s, a, s')) (happrove : ∀ selected, a = .approve selected →
      id ∉ selected) : Blocked s' id := by
  cases a with
  | get i token =>
      simp only [execute] at hs
      split_ifs at hs
      split at hs <;> cases hs <;> exact h
  | save i =>
      obtain ⟨saved, hview, rfl⟩ := Option.map_eq_some_iff.mp hs
      refine blocked_map (fun row _ hid hblocked => ?_) h
      rw [if_neg]
      · exact ⟨hid, hblocked⟩
      · intro hsaved
        exact hsave ⟨i, saved, rfl, hview, by rwa [← hsaved, hid]⟩
  | block selected =>
      obtain rfl := Option.some.inj hs
      refine blocked_map (fun row _ hid hblocked => ?_) h
      split
      · exact ⟨hid, rfl⟩
      · exact ⟨hid, hblocked⟩
  | approve selected =>
      obtain rfl := Option.some.inj hs
      refine blocked_map (fun row _ hid hblocked => ?_) h
      rw [if_neg (hid ▸ happrove selected rfl)]
      exact ⟨hid, hblocked⟩

/-- A save approves its account, whatever its status was. -/
lemma not_blocked_save {i : ℕ} (hs : execute s (.save i) = some s') (hview : s.views i = some id) :
    ¬ Blocked s' id := by
  rw [execute, hview] at hs
  obtain rfl := Option.some.inj hs
  rintro ⟨row, hmem, hid, hblocked⟩
  obtain ⟨old, -, rfl⟩ := List.mem_map.mp hmem
  split at hid
  · rename_i hold
    rw [if_pos hold] at hblocked
    cases hblocked
  · rename_i hold
    exact hold hid

/-- A run without such saves keeps the account blocked. -/
lemma blocked_run {as : List Statement} (hrun : exec execute s as = some s') (h : Blocked s id)
    (hsave : ∀ t ∈ trace execute s as, ¬ SavesBlocked t)
    (happrove : ∀ selected, .approve selected ∈ as → id ∉ selected) : Blocked s' id := by
  induction as generalizing s with
  | nil =>
      obtain rfl := Option.some.inj hrun
      exact h
  | cons a as ih =>
      obtain ⟨d, hd, hrun⟩ := Option.bind_eq_some_iff.mp hrun
      rw [trace_cons hd] at hsave
      refine ih hrun (blocked_step hd h (hsave _ List.mem_cons_self) ?_)
        (fun t ht => hsave t (List.mem_cons_of_mem _ ht))
        fun selected hsel => happrove selected (List.mem_cons_of_mem _ hsel)
      rintro selected rfl
      exact happrove selected List.mem_cons_self

/-- **Blocked accounts stay blocked**, exactly if no view saves one: along a run from any
table with no view under way, an account that is blocked at some point is blocked at every
later point before an admin approves it if and only if no `verify_view` executes its save
when the account it has read is blocked. -/
theorem blocked_stays_iff (users : List UserRow) (as : List Statement) :
    (∀ before after s s' id, before ++ after <+: as →
        exec execute ⟨users, fun _ => none⟩ before = some s → exec execute s after = some s' →
        Blocked s id → (∀ selected, .approve selected ∈ after → id ∉ selected) → Blocked s' id)
      ↔ ∀ t ∈ trace execute ⟨users, fun _ => none⟩ as, ¬ SavesBlocked t := by
  constructor
  · rintro hstays ⟨s, a, s'⟩ ht ⟨i, id, rfl, hview, hblocked⟩
    obtain ⟨done, rest, rfl, hdone, hs⟩ := exists_of_mem_trace ht
    have hafter : exec execute s [.save i] = some s' := by
      rw [Runs.exec, show execute s (.save i) = some s' from hs]
      rfl
    refine not_blocked_save hs hview
      (hstays done [.save i] s s' id ⟨rest, by simp⟩ hdone hafter hblocked (by simp))
  · intro hsave before after s s' id hpre hbefore hafter hblocked happrove
    obtain ⟨rest, rfl⟩ := hpre
    exact blocked_run hafter hblocked (fun t ht => hsave t (trace_subset hbefore rest ht)) happrove

/-! ### How a view comes to hold a blocked account -/

/-- Every statement keeps the keys. -/
lemma ids_execute (hs : execute s a = some s') :
    s'.users.map (·.id) = s.users.map (·.id) := by
  have hmap : ∀ f : UserRow → UserRow, (∀ row, (f row).id = row.id) →
      (s.users.map f).map (·.id) = s.users.map (·.id) := by
    intro f hf
    rw [List.map_map]
    exact List.map_congr_left fun row _ => hf row
  cases a with
  | get i token =>
      simp only [execute] at hs
      split_ifs at hs
      split at hs <;> cases hs <;> rfl
  | save i =>
      obtain ⟨saved, -, rfl⟩ := Option.map_eq_some_iff.mp hs
      exact hmap _ fun row => by split <;> rfl
  | block selected =>
      obtain rfl := Option.some.inj hs
      exact hmap _ fun row => by split <;> rfl
  | approve selected =>
      obtain rfl := Option.some.inj hs
      exact hmap _ fun row => by split <;> rfl

/-- An account that a statement rewrites only to approve it was blocked before. -/
lemma blocked_of_map {users : List UserRow} {f : UserRow → UserRow}
    (hf : ∀ row, f row = row ∨ f row = row.approved)
    (h : ∃ row ∈ users.map f, row.id = id ∧ row.status = .blocked) :
    ∃ row ∈ users, row.id = id ∧ row.status = .blocked := by
  obtain ⟨row, hmem, hid, hblocked⟩ := h
  obtain ⟨old, hold, rfl⟩ := List.mem_map.mp hmem
  rcases hf old with heq | heq
  · rw [heq] at hid hblocked
    exact ⟨old, hold, hid, hblocked⟩
  · rw [heq] at hblocked
    cases hblocked

/-- What a `get` finds is pending. -/
lemma not_blocked_get {token : String} {account : UserRow}
    (hids : (s.users.map (·.id)).Nodup) (hget : getPending s.users token = [account]) :
    ¬ Blocked s account.id := by
  have hmem : account ∈ getPending s.users token := by simp [hget]
  obtain ⟨hmem, hfound⟩ := List.mem_filter.mp hmem
  have hpending : account.status = .pending := (of_decide_eq_true hfound).2
  rintro ⟨row, hrow, hid, hblocked⟩
  obtain rfl := List.inj_on_of_nodup_map hids hrow hmem hid
  rw [hpending] at hblocked
  cases hblocked

/-- **How a view comes to save a blocked account.**  A view that holds an account has read
it, and if the account is blocked now, an admin blocked it after that. -/
theorem blocked_after_get {users : List UserRow} (hids : (users.map (·.id)).Nodup)
    {as : List Statement} (hrun : exec execute ⟨users, fun _ => none⟩ as = some s) {i : ℕ}
    (hview : s.views i = some id) : ∃ before token after, as = before ++ .get i token :: after
      ∧ (Blocked s id → ∃ selected, .block selected ∈ after ∧ id ∈ selected) := by
  have hkeys : s.users.map (·.id) = users.map (·.id) :=
    exec_invariant (I := fun s => s.users.map (·.id) = users.map (·.id))
      (fun _ _ _ _ h hs => (ids_execute hs).trans h) rfl hrun
  induction as using List.reverseRecOn generalizing s with
  | nil =>
      obtain rfl := Option.some.inj hrun
      cases hview
  | append_singleton as a ih =>
      rw [exec_append] at hrun
      obtain ⟨d, hd, hlast⟩ := Option.bind_eq_some_iff.mp hrun
      have hs : execute d a = some s := by
        obtain ⟨e, he, heq⟩ := Option.bind_eq_some_iff.mp hlast
        rwa [← Option.some.inj heq]
      have hkeys' : d.users.map (·.id) = users.map (·.id) := (ids_execute hs).symm.trans hkeys
      -- if the view held the account before, the statement extends what came after its `get`
      have hextend : d.views i = some id →
          (Blocked s id → Blocked d id ∨ ∃ selected, a = .block selected ∧ id ∈ selected) →
          ∃ before token after, as ++ [a] = before ++ .get i token :: after
            ∧ (Blocked s id → ∃ selected, .block selected ∈ after ∧ id ∈ selected) := by
        intro hview' hblocked
        obtain ⟨before, token, after, rfl, hafter⟩ := ih hd hview' hkeys'
        refine ⟨before, token, after ++ [a], by simp, fun hb => ?_⟩
        rcases hblocked hb with hb | ⟨selected, rfl, hid⟩
        · obtain ⟨selected, hmem, hid⟩ := hafter hb
          exact ⟨selected, List.mem_append_left _ hmem, hid⟩
        · exact ⟨selected, by simp, hid⟩
      cases a with
      | get j token =>
          simp only [execute] at hs
          split_ifs at hs
          split at hs
          · rename_i account hget
            obtain rfl := Option.some.inj hs
            by_cases hij : i = j
            · subst hij
              obtain rfl : account.id = id := by simpa using hview
              refine ⟨as, token, [], by simp, fun hb => ?_⟩
              exact absurd hb (not_blocked_get (hkeys'.symm ▸ hids) hget)
            · exact hextend (by simpa [Function.update_of_ne hij] using hview) .inl
          · obtain rfl := Option.some.inj hs
            exact hextend hview .inl
      | save j =>
          obtain ⟨saved, -, rfl⟩ := Option.map_eq_some_iff.mp hs
          have hij : i ≠ j := by
            rintro rfl
            simp at hview
          refine hextend (by simpa [Function.update_of_ne hij] using hview) fun hb => .inl ?_
          exact blocked_of_map (fun row => by split <;> simp) hb
      | block selected =>
          obtain rfl := Option.some.inj hs
          refine hextend hview fun hb => ?_
          by_cases hsel : id ∈ selected
          · exact .inr ⟨selected, rfl, hsel⟩
          · obtain ⟨row, hmem, hid, hblocked⟩ := hb
            obtain ⟨old, hold, rfl⟩ := List.mem_map.mp hmem
            have hold' : old.id ∉ selected := by
              intro h
              rw [if_pos h] at hid
              exact hsel (hid ▸ h)
            rw [if_neg hold'] at hid hblocked
            exact .inl ⟨old, hold, hid, hblocked⟩
      | approve selected =>
          obtain rfl := Option.some.inj hs
          exact hextend hview fun hb => .inl (blocked_of_map (fun row => by split <;> simp) hb)

/-- Alice's row, with the token of her link. -/
def aliceRow : UserRow := ⟨1, "alice", "a@b", "pw", .pending, "link"⟩

/-- An admin blocks her account between the two statements of her verification. -/
theorem verify_unblocks : ∃ s s',
    exec execute ⟨[aliceRow], fun _ => none⟩ [.get 0 "link", .block [1]] = some s
      ∧ exec execute s [.save 0] = some s' ∧ Blocked s 1 ∧ ¬ Blocked s' 1 := by
  refine ⟨_, _, rfl, rfl, ⟨{ aliceRow with status := .blocked }, ?_, rfl, rfl⟩, ?_⟩
  · decide
  · rintro ⟨row, hmem, -, hblocked⟩
    obtain rfl := List.mem_singleton.mp hmem
    cases hblocked

end Rendezvous
