import Dddatasync.Pushing
import Dddatasync.VisibleFiles

/-!
What an acknowledged push says about the peer's store: `notify_peer` against `pull` of
`src/sync.rs`.

* `Stands`: the content a hash stands for; `Stored`: a peer has finished its `pull` of an offer,
  has not answered yet, and holds the content under the name of the offer.
* `Collides`: two pulls of one peer export under one name at once.  `nonce` has only the
  sub-second part of the clock, `uuid_simple` has all of it.
* `AckInv`: what a message, an answer and a result say about the pull behind them.
* `acked_stored`: in every run without such pulls an `Ok` of `notify_peer` means that the peer
  held what was imported; `acked_lost`: a run with two such pulls.
-/

namespace Dddatasync

open Fs OsString Runs

variable {μ π C NodeId Sock Relay Hash : Type*}

/-! ### Statements -/

/-- The hash, as text, stands for a collection whose first file is `c`. -/
def Stands (k : Codec NodeId Sock Relay Hash) (b : Blobs C Hash) (hash : String) (c : C) : Prop :=
  ∃ h name rest, k.parseHash hash = some h ∧ b.collectionHash ((name, b.fileHash c) :: rest) = h

/-- The `pull` of the handler has an export under way, or one that waits for its rename. -/
def HandlerPc.Exporting : HandlerPc C Hash → Prop
  | .pulling _ (.exporting _) | .pulling _ (.publishing _) => True
  | _ => False

namespace Pushing

variable (w : Pushing μ π C NodeId Sock Relay Hash)

/-- Two pulls of one peer have an export under way, with one name. -/
def Collides (s : Traffic μ π C Hash) : Prop :=
  ∃ l l' p, l ≠ l' ∧ w.peer l = some p ∧ w.peer l' = some p ∧ (s.handler l).Exporting
    ∧ (s.handler l').Exporting ∧ exportName (w.exportStamp l) = exportName (w.exportStamp l')

/-- The `pull` of the offer has succeeded, nothing is answered yet, and the peer holds a content
that the offer stands for under the name of the offer. -/
def Stored (l : Link μ) (offer : SyncOffer) (s : Traffic μ π C Hash) : Prop :=
  s.toSender l = none ∧ s.handler l = .pulling offer (.done (.ok ()))
    ∧ ∃ p c, w.peer l = some p ∧ Stands w.codec w.blobs offer.hash c
      ∧ entry (s.store p) (w.root p) (ofStr offer.fileName) = some (.file c)

end Pushing

/-! ### The invariant -/

section Acks

variable [LinearOrder Sock] [LinearOrder Relay] [DecidableEq μ] [DecidableEq π]
  [DecidableEq Hash]

/-- What is known in every state: the pulls know what they should, messages and offers are
those of the push, an answer comes after the `pull`, a `pull` that succeeded has `stored`, a
good answer and a good result have such a `pull` behind them. -/
structure AckInv (w : Pushing μ π C NodeId Sock Relay Hash) (stored : Link μ → SyncOffer → Prop)
    (s : Traffic μ π C Hash) : Prop where
  root_dir : ∀ p, node (s.store p) (w.root p) = some .dir
  pulls : ∀ l p o pc, w.peer l = some p → s.handler l = .pulling o pc →
    PullOk w.codec (w.root p) (w.call l o) (fun _ c => Stands w.codec w.blobs o.hash c)
      (s.store p) pc
  written : ∀ n o, s.toPeer (.mine n) = some o →
    ∃ f c, s.push.file = some (f, c) ∧ o = w.offer f c
  offered : ∀ n o pc, (s.handler (.mine n)).call = some (o, pc) →
    ∃ f c, s.push.file = some (f, c) ∧ o = w.offer f c
  silent : ∀ l, (∀ o pc r, s.handler l ≠ .answered o pc r) → s.toSender l = none
  stored : ∀ l o, (s.handler l).call = some (o, .done (.ok ())) → stored l o
  acked : ∀ l ack, s.toSender l = some ack → ack.ok = true →
    ∃ o, (s.handler l).call = some (o, .done (.ok ()))
  results : ∀ n, s.push.results[n]? = some (.ok ()) →
    ∃ o, (s.handler (.mine n)).call = some (o, .done (.ok ()))

variable {w : Pushing μ π C NodeId Sock Relay Hash} {stored stored' : Link μ → SyncOffer → Prop}
  {s s' : Traffic μ π C Hash} {l : Link μ}

omit [DecidableEq μ] [DecidableEq π] [DecidableEq Hash] in
lemma AckInv.mono (h : AckInv w stored s) (hs : ∀ l o, stored l o → stored' l o) :
    AckInv w stored' s :=
  { h with stored := fun l o hcall => hs l o (h.stored l o hcall) }

omit [DecidableEq μ] [DecidableEq π] [DecidableEq Hash] in
lemma ackInv_init {store : π → FileSystem C} (hroot : ∀ p, node (store p) (w.root p) = some .dir) :
    AckInv w stored (Traffic.init store) where
  root_dir := hroot
  pulls := by simp [Traffic.init]
  written := by simp [Traffic.init]
  offered := by simp [Traffic.init, HandlerPc.call]
  silent := fun l _ => rfl
  stored := by simp [Traffic.init, HandlerPc.call]
  acked := by simp [Traffic.init]
  results := by simp [Traffic.init, PushPc.results]

omit [DecidableEq π] [DecidableEq Hash] in
/-- A move of the sender. -/
lemma ackInv_push (hstep : PushStepped w s s') (h : AckInv w stored s) : AckInv w stored s' := by
  -- what was written or read is of a file that is imported already
  have hkeep : ∀ pc : PushPc C, (∀ x, s.push.file = some x → pc.file = some x) →
      (∀ n, pc.results[n]? = some (.ok ()) →
        ∃ o, (s.handler (.mine n)).call = some (o, .done (.ok ()))) →
      AckInv w stored { s with push := pc } := by
    intro pc hfile hresults
    refine { h with written := fun n o ho => ?_, offered := fun n o qc ho => ?_,
                    results := hresults }
    · obtain ⟨f, c, hf, rfl⟩ := h.written n o ho
      exact ⟨f, c, hfile _ hf, rfl⟩
    · obtain ⟨f, c, hf, rfl⟩ := h.offered n o qc ho
      exact ⟨f, c, hfile _ hf, rfl⟩
  cases hstep with
  | begun pc file results =>
      refine hkeep pc (fun x hx => ?_) (fun n hn => ?_)
      · rw [file] at hx
        cases hx
      · rw [results] at hn
        cases hn
  | moved pc file results =>
      refine hkeep pc (fun x hx => file.trans hx) fun n hn => h.results n ?_
      rwa [results] at hn
  | wrote pc f c was file results =>
      have hbase := hkeep pc (fun x hx => by rw [file, ← was, hx]) fun n hn =>
        h.results n (by rwa [results] at hn)
      refine { hbase with written := fun n o ho => ?_ }
      by_cases hn : n = s.push.results.length
      · subst hn
        simp only [Function.update_self] at ho
        exact ⟨f, c, file, (Option.some.inj ho).symm⟩
      · have hne : Link.mine n ≠ (.mine s.push.results.length : Link μ) := by simpa using hn
        simp only [Function.update_of_ne hne] at ho
        exact hbase.written n o ho
  | returned pc r file results acked =>
      refine hkeep pc (fun x hx => file.trans hx) fun n hn => ?_
      rw [results] at hn
      by_cases hlt : n < s.push.results.length
      · rw [List.getElem?_append_left hlt] at hn
        exact h.results n hn
      · rw [List.getElem?_append_right (by omega)] at hn
        have hzero : n - s.push.results.length = 0 := by
          by_contra hne
          rw [List.getElem?_eq_none (by simp; omega)] at hn
          cases hn
        rw [hzero] at hn
        obtain ⟨ack, hack, hok⟩ := acked (Option.some.inj hn)
        obtain rfl : n = s.push.results.length := by omega
        exact h.acked _ ack hack hok

omit [DecidableEq π] [DecidableEq Hash] in
/-- What a move of the handler of `l` has to keep: what it knows itself, what the others know of
their stores, and what its answer says. -/
lemma ackInv_update (h : AckInv w stored s) {pc' : HandlerPc C Hash} {store' : π → FileSystem C}
    {acks : Link μ → Option SyncAck}
    (hroot : ∀ p, node (store' p) (w.root p) = some .dir)
    (hself : ∀ p o pc, w.peer l = some p → pc' = .pulling o pc →
      PullOk w.codec (w.root p) (w.call l o) (fun _ c => Stands w.codec w.blobs o.hash c)
        (store' p) pc)
    (hothers : ∀ l' p o pc, l' ≠ l → w.peer l' = some p → s.handler l' = .pulling o pc →
      entry (store' p) (w.root p) (exportName (w.exportStamp l'))
          = entry (s.store p) (w.root p) (exportName (w.exportStamp l'))
        ∨ ¬ (s.handler l').Exporting)
    (hoffer : ∀ n o pc, l = .mine n → pc'.call = some (o, pc) →
      ∃ f c, s.push.file = some (f, c) ∧ o = w.offer f c)
    (hstored : ∀ o, pc'.call = some (o, .done (.ok ())) → stored l o)
    (hkeeps : ∀ o, (s.handler l).call = some (o, .done (.ok ())) →
      pc'.call = some (o, .done (.ok ())))
    (hsilent : (∀ o pc r, pc' ≠ .answered o pc r) → acks l = none)
    (hacks : ∀ l', l' ≠ l → acks l' = s.toSender l')
    (hacked : ∀ ack, acks l = some ack → ack.ok = true →
      ∃ o, pc'.call = some (o, .done (.ok ()))) :
    AckInv w stored { s with
      store := store', handler := Function.update s.handler l pc', toSender := acks } := by
  have hcall : ∀ l' o, (s.handler l').call = some (o, .done (.ok ())) →
      (Function.update s.handler l pc' l').call = some (o, .done (.ok ())) := by
    intro l' o ho
    by_cases hl : l' = l
    · subst hl
      rw [Function.update_self]
      exact hkeeps o ho
    · rw [Function.update_of_ne hl]
      exact ho
  constructor
  case root_dir => exact hroot
  case written => exact h.written
  case pulls =>
    intro l' p o pc hp hpc
    by_cases hl : l' = l
    · subst hl
      simp only [Function.update_self] at hpc
      exact hself p o pc hp hpc
    · simp only [Function.update_of_ne hl] at hpc
      refine (h.pulls l' p o pc hp hpc).mono (fun _ _ hc => hc) fun hstaging => ?_
      refine (hothers l' p o pc hl hp hpc).resolve_right fun hnot => hnot ?_
      rw [hpc]
      cases pc with
      | exporting | publishing => trivial
      | start | refused | fetching | done => exact hstaging.elim
  case offered =>
    intro n o pc ho
    by_cases hl : .mine n = l
    · subst hl
      simp only [Function.update_self] at ho
      exact hoffer n o pc rfl ho
    · simp only [Function.update_of_ne hl] at ho
      exact h.offered n o pc ho
  case silent =>
    intro l' hnot
    by_cases hl : l' = l
    · subst hl
      simp only [Function.update_self] at hnot
      exact hsilent hnot
    · simp only [Function.update_of_ne hl] at hnot
      exact (hacks l' hl).trans (h.silent l' hnot)
  case stored =>
    intro l' o ho
    by_cases hl : l' = l
    · subst hl
      simp only [Function.update_self] at ho
      exact hstored o ho
    · simp only [Function.update_of_ne hl] at ho
      exact h.stored l' o ho
  case acked =>
    intro l' ack hack hok
    by_cases hl : l' = l
    · subst hl
      simp only [Function.update_self]
      exact hacked ack hack hok
    · obtain ⟨o, ho⟩ := h.acked l' ack ((hacks l' hl).symm.trans hack) hok
      exact ⟨o, hcall l' o ho⟩
  case results =>
    intro n hn
    obtain ⟨o, ho⟩ := h.results n hn
    exact ⟨o, hcall _ o ho⟩

omit [LinearOrder Sock] [LinearOrder Relay] [DecidableEq μ] [DecidableEq π] [DecidableEq Hash] in
/-- Outside of its export a `pull` leaves all exported files alone. -/
lemma pullStepped_idle {k : Codec NodeId Sock Relay Hash} {b : Blobs C Hash} {root : AbsPath}
    {p : PullCall} {fs fs' : FileSystem C} {pc pc' : PullPc C Hash} {o : SyncOffer}
    (h : PullStepped k b root p fs fs' pc pc')
    (hidle : ¬ (HandlerPc.pulling o pc : HandlerPc C Hash).Exporting) (t : Stamp) :
    entry fs' root (exportName t) = entry fs root (exportName t) := by
  have hne : ∀ t', exportName t ≠ recvName t' := exportName_ne_recvName t
  cases h with
  | begun hash safe parsed same => exact same.entry_eq _ (hne _)
  | stored _ same => exact same.entry_eq _ (hne _)
  | fetched hash c name rest stands fs_eq => rw [fs_eq]
  | failed _ e running fs_eq => rw [fs_eq]
  | refused e fs_eq => rw [fs_eq]
  | written c same => exact absurd trivial hidle
  | exported c same content => exact absurd trivial hidle
  | renamed c moved => exact absurd trivial hidle

omit [LinearOrder Sock] [LinearOrder Relay] [DecidableEq μ] [DecidableEq π] [DecidableEq Hash] in
/-- A `pull` that succeeds has just put a content under its name. -/
lemma pullStepped_done {k : Codec NodeId Sock Relay Hash} {b : Blobs C Hash} {root : AbsPath}
    {p : PullCall} {got : OsString → C → Prop} {fs fs' : FileSystem C} {pc : PullPc C Hash}
    (hroot : node fs root = some .dir) (hok : PullOk k root p got fs pc)
    (h : PullStepped k b root p fs fs' pc (.done (.ok ()))) : pc = .done (.ok ())
      ∨ ∃ c, got (ofStr p.fileName) c ∧ entry fs' root (ofStr p.fileName) = some (.file c) := by
  cases h with
  | stored _ same => exact .inl rfl
  | renamed c moved =>
      obtain ⟨hsafe, hc, hentry⟩ := hok.exported c rfl
      obtain ⟨⟨e, he⟩, -⟩ | ⟨-, fs₁, hren, hplaced⟩ := rename_hidden hroot
        (plain_exportName p.exportStamp) (not_visible_exportName p.exportStamp) hentry hsafe
      · rw [moved] at he
        cases he
      · rw [moved] at hren
        cases hren
        exact .inr ⟨c, hc, hplaced.entry_self⟩

omit [LinearOrder Sock] [LinearOrder Relay] [DecidableEq μ] [DecidableEq π] [DecidableEq Hash] in
/-- A `pull` that is over stays so. -/
lemma pullStepped_of_done {k : Codec NodeId Sock Relay Hash} {b : Blobs C Hash} {root : AbsPath}
    {p : PullCall} {fs fs' : FileSystem C} {pc' : PullPc C Hash} {r : Except PullError Unit}
    (h : PullStepped k b root p fs fs' (.done r) pc') : pc' = .done r := by
  cases h with
  | stored _ same => rfl
  | failed _ e running fs_eq => cases running

omit [DecidableEq μ] [DecidableEq π] [DecidableEq Hash] in
lemma AckInv.unanswered (h : AckInv w stored s) {o : SyncOffer} {pc : PullPc C Hash}
    (hpc : s.handler l = .pulling o pc) : s.toSender l = none :=
  h.silent l fun o' pc' r heq => by
    rw [hpc] at heq
    cases heq

omit [DecidableEq μ] [DecidableEq π] [DecidableEq Hash] in
lemma AckInv.early (h : AckInv w stored s) (hcall : (s.handler l).call = none) :
    s.toSender l = none :=
  h.silent l fun o' pc' r heq => by
    rw [heq] at hcall
    cases hcall

omit [DecidableEq Hash] in
/-- The `pull` of a handler makes a step. -/
lemma ackInv_pulled {p : π} {offer : SyncOffer} {pc pc' : PullPc C Hash} {fs' : FileSystem C}
    (hpeer : w.peer l = some p) (was : s.handler l = .pulling offer pc)
    (stepped : PullStepped w.codec w.blobs (w.root p) (w.call l offer) (s.store p) fs' pc pc')
    (hstored : w.Stored l offer { s with
      store := Function.update s.store p fs'
      handler := Function.update s.handler l (.pulling offer pc') } → stored l offer)
    (hclear : ¬ w.Collides s) (h : AckInv w stored s) :
    AckInv w stored { s with
      store := Function.update s.store p fs'
      handler := Function.update s.handler l (.pulling offer pc') } := by
  have hok := h.pulls l p offer pc hpeer was
  obtain ⟨hok', htouched⟩ := pullOk_stepped (h.root_dir p) stepped
    (fun c hash name rest _ hparse hstands _ => ⟨hash, name, rest, hparse, hstands⟩) hok
  refine ackInv_update h (fun q => ?_) (fun q o qc hq hpc => ?_)
    (fun l' q o qc hl hq hpc => ?_) (fun n o qc hl ho => ?_) (fun o ho => ?_) (fun o ho => ?_)
    (fun _ => h.unanswered was) (fun _ _ => rfl) (fun ack hack => ?_)
  · by_cases hq : q = p
    · subst hq
      rw [Function.update_self]
      exact htouched.root_eq.trans (h.root_dir q)
    · rw [Function.update_of_ne hq]
      exact h.root_dir q
  · cases hpc
    obtain rfl := Option.some.inj (hpeer.symm.trans hq)
    rw [Function.update_self]
    exact hok'
  · by_cases hqp : q = p
    · subst hqp
      rw [Function.update_self]
      by_cases hexp' : (s.handler l').Exporting
      · by_cases hexp : (s.handler l).Exporting
        · -- both export, so under different names
          have hne : (Writer.pull (w.call l' o)).staged
              ≠ (Writer.pull (w.call l offer)).staged := by
            rw [staged_pull, staged_pull, Pushing.call_exportStamp, Pushing.call_exportStamp]
            exact fun heq => hclear ⟨l', l, q, hl, hq, hpeer, hexp', hexp, heq⟩
          have hentry := htouched.staged_eq hne (by simp)
          rw [staged_pull, Pushing.call_exportStamp] at hentry
          exact .inl hentry
        · rw [was] at hexp
          exact .inl (pullStepped_idle stepped hexp _)
      · exact .inr hexp'
    · exact .inl (by rw [Function.update_of_ne hqp])
  · obtain ⟨rfl, rfl⟩ := Prod.mk.inj (Option.some.inj ho)
    subst hl
    exact h.offered n offer pc (by rw [was]; rfl)
  · obtain ⟨rfl, rfl⟩ := Prod.mk.inj (Option.some.inj ho)
    obtain rfl | ⟨c, hc, hentry⟩ := pullStepped_done (h.root_dir p) hok stepped
    · exact h.stored l offer (by rw [was]; rfl)
    · refine hstored ⟨h.unanswered was, Function.update_self .., p, c, hpeer, hc, ?_⟩
      simp only [Function.update_self]
      exact hentry
  · rw [was] at ho
    obtain ⟨rfl, rfl⟩ := Prod.mk.inj (Option.some.inj ho)
    rw [pullStepped_of_done stepped]
    rfl
  · rw [h.unanswered was] at hack
    cases hack

omit [DecidableEq Hash] in
/-- **A move of a handler.**  While no two pulls of one peer export under one name, a handler
keeps the invariant. -/
lemma ackInv_handler (hstep : HandlerStepped w s l s')
    (hstored : ∀ o, w.Stored l o s' → stored l o) (hclear : ¬ w.Collides s)
    (h : AckInv w stored s) : AckInv w stored s' := by
  cases hstep with
  | early pc was call =>
      refine ackInv_update h h.root_dir (fun p o qc _ hpc => ?_) (fun _ _ _ _ _ _ _ => .inl rfl)
        (fun n o qc _ ho => ?_) (fun o ho => ?_) (fun o ho => ?_) (fun _ => h.early was)
        (fun _ _ => rfl) (fun ack hack => ?_)
      · rw [hpc] at call
        cases call
      · rw [call] at ho
        cases ho
      · rw [call] at ho
        cases ho
      · rw [was] at ho
        cases ho
      · rw [h.early was] at hack
        cases hack
  | got offer was read =>
      refine ackInv_update h h.root_dir (fun p o qc _ hpc => ?_) (fun _ _ _ _ _ _ _ => .inl rfl)
        (fun n o qc hl ho => ?_) (fun o ho => ?_) (fun o ho => ?_) (fun _ => h.early was)
        (fun _ _ => rfl) (fun ack hack => ?_)
      · cases hpc
        exact ⟨by simp, by simp, by simp⟩
      · obtain ⟨rfl, rfl⟩ := Prod.mk.inj (Option.some.inj ho)
        exact h.written n offer (read n hl)
      · cases ho
      · rw [was] at ho
        cases ho
      · rw [h.early was] at hack
        cases hack
  | pulled p offer pc pc' fs' peer was stepped =>
      exact ackInv_pulled peer was stepped (hstored offer) hclear h
  | cleaned p offer pc r fs' peer was same =>
      have hcall : (s.handler l).call = some (offer, pc) := by rw [was]; rfl
      refine ackInv_update h (fun q => ?_) (by simp) (fun l' q o qc hl hq hpc => .inl ?_)
        (fun n o qc hl ho => ?_) (fun o ho => h.stored l o (hcall.trans ho))
        (fun o ho => hcall.symm.trans ho) (fun hnot => absurd rfl (hnot offer pc r))
        (fun _ _ => rfl) (fun ack hack hok => ?_)
      · by_cases hq : q = p
        · subst hq
          rw [Function.update_self]
          exact same.root_eq.trans (h.root_dir q)
        · rw [Function.update_of_ne hq]
          exact h.root_dir q
      · by_cases hqp : q = p
        · subst hqp
          rw [Function.update_self]
          exact same.entry_eq _ (exportName_ne_recvName _ _)
        · rw [Function.update_of_ne hqp]
      · subst hl
        exact h.offered n o qc (hcall.trans ho)
      · obtain ⟨o, ho⟩ := h.acked l ack hack hok
        exact ⟨o, hcall.symm.trans ho⟩
  | answered offer pc r was result =>
      have hcall : (s.handler l).call = some (offer, pc) := by rw [was]; rfl
      refine ackInv_update h h.root_dir (by simp) (fun _ _ _ _ _ _ _ => .inl rfl)
        (fun n o qc hl ho => ?_) (fun o ho => h.stored l o (hcall.trans ho))
        (fun o ho => hcall.symm.trans ho) (fun hnot => absurd rfl (hnot offer pc _))
        (fun l' hl => Function.update_of_ne hl _ _) (fun ack hack hok => ⟨offer, ?_⟩)
      · subst hl
        exact h.offered n o qc (hcall.trans ho)
      · rw [Function.update_self] at hack
        obtain rfl := Option.some.inj hack
        cases r with
        | error e => cases hok
        | ok u =>
            cases pc with
            | done r =>
                cases result
                rfl
            | refused | start | fetching | exporting | publishing => cases result
  | dropped offer pc e was =>
      have hcall : (s.handler l).call = some (offer, pc) := by rw [was]; rfl
      refine ackInv_update h h.root_dir (by simp) (fun _ _ _ _ _ _ _ => .inl rfl)
        (fun n o qc hl ho => ?_) (fun o ho => h.stored l o (hcall.trans ho))
        (fun o ho => hcall.symm.trans ho) (fun hnot => absurd rfl (hnot offer pc _))
        (fun _ _ => rfl) (fun ack hack => ?_)
      · subst hl
        exact h.offered n o qc (hcall.trans ho)
      · rw [h.unanswered was] at hack
        cases hack
  | closed offer pc r was =>
      have hcall : (s.handler l).call = some (offer, pc) := by rw [was]; rfl
      have hsame : s.handler = Function.update s.handler l (.answered offer pc r) := by
        rw [← was, Function.update_eq_self]
      rw [hsame]
      refine ackInv_update h h.root_dir (by simp) (fun _ _ _ _ _ _ _ => .inl rfl)
        (fun n o qc hl ho => ?_) (fun o ho => h.stored l o (hcall.trans ho))
        (fun o ho => hcall.symm.trans ho) (fun hnot => absurd rfl (hnot offer pc r))
        (fun l' hl => Function.update_of_ne hl _ _) (fun ack hack => ?_)
      · subst hl
        exact h.offered n o qc (hcall.trans ho)
      · rw [Function.update_self] at hack
        cases hack

/-- **A step.** -/
lemma ackInv_step {a : TrafficAct μ C Hash} (hs : w.step s a = some s')
    (hstored : ∀ l o, w.Stored l o s' → stored l o) (hclear : ¬ w.Collides s)
    (h : AckInv w stored s) : AckInv w stored s' := by
  cases a with
  | push move => exact ackInv_push (pushStep_stepped hs) h
  | handler l move => exact ackInv_handler (handlerStep_stepped hs) (hstored l) hclear h

/-- **A run.** -/
lemma ackInv_run {store : π → FileSystem C} (hroot : ∀ p, node (store p) (w.root p) = some .dir)
    {as : List (TrafficAct μ C Hash)}
    (hclear : ∀ t ∈ trace w.step (Traffic.init store) as, ¬ w.Collides t.1)
    (hrun : exec w.step (Traffic.init store) as = some s) :
    AckInv w (fun l o => Sometime w.step (w.Stored l o) (Traffic.init store) as) s := by
  refine history_invariant
    (I := fun done t => AckInv w
      (fun l o => Sometime w.step (w.Stored l o) (Traffic.init store) done) t)
    (ackInv_init hroot) (fun done a t t' hpre hdone hI ha => ?_) hrun
  have hnext : exec w.step (Traffic.init store) (done ++ [a]) = some t' := by
    rw [exec_snoc, hdone]
    exact ha
  refine ackInv_step ha (fun l o ho => Sometime.now hnext ho)
    (hclear _ (mem_trace hpre hdone ha)) (hI.mono fun l o ho => ?_)
  exact ho.mono (List.prefix_append done [a])

/-- **An acknowledged push was stored.**  Files and collections with one hash are the same.
Then in every run in which no two pulls of one peer export under one name: where `notify_peer`
returned `Ok` for the `n`-th peer, the `pull` of that very offer had succeeded there, and before
it was answered the peer held under the name of the offer what was imported. -/
theorem acked_stored (w : Pushing μ π C NodeId Sock Relay Hash)
    (hfiles : Function.Injective w.blobs.fileHash)
    (hcollections : Function.Injective w.blobs.collectionHash) {store : π → FileSystem C}
    (hroot : ∀ p, node (store p) (w.root p) = some .dir) {as : List (TrafficAct μ C Hash)}
    (hrun : exec w.step (Traffic.init store) as = some s)
    (hclear : ∀ t ∈ trace w.step (Traffic.init store) as, ¬ w.Collides t.1) {f : String} {c : C}
    (hfile : s.push.file = some (f, c)) {n : ℕ} (hok : s.push.results[n]? = some (.ok ())) :
    Sometime w.step (fun t => t.toSender (.mine n) = none
        ∧ t.handler (.mine n) = .pulling (w.offer f c) (.done (.ok ()))
        ∧ ∃ p, w.peers[n]? = some p
          ∧ entry (t.store p) (w.root p) (ofStr f) = some (.file c)) (Traffic.init store) as := by
  have h := ackInv_run hroot hclear hrun
  obtain ⟨o, ho⟩ := h.results n hok
  obtain ⟨f', c', hfile', rfl⟩ := h.offered n o _ ho
  obtain ⟨rfl, rfl⟩ := Prod.mk.inj (Option.some.inj (hfile.symm.trans hfile'))
  refine (h.stored _ _ ho).imp ?_
  rintro t ⟨hsilent, hpull, p, d, hp, ⟨hash, name, rest, hparse, hstands⟩, hentry⟩
  -- the hash of the offer stands for the imported file only
  have hhash : w.importHash f c = hash := by
    rw [Pushing.offer, Codec.parse_printHash] at hparse
    exact Option.some.inj hparse
  have hlist := hcollections (hstands.trans hhash.symm)
  obtain rfl := hfiles (congrArg Prod.snd (List.cons.inj hlist).1)
  exact ⟨hsilent, hpull, p, hp, hentry⟩

end Acks

/-! ### Two offers at once -/

/-- An empty store. -/
def emptyStore : Unit → FileSystem (List UInt8) := fun _ => AList.insert [ofStr "store"] .dir ∅

/-- A push of `foo` to one peer, to which somebody else connects too.  The clock readings are
`nanos` apart when the two pulls come to their exports. -/
def twoOffers (nanos : ℕ) :
    Pushing Unit Unit (List UInt8) String String String String where
  codec := textCodec
  blobs := textBlobs
  dbg := id
  ioText := fun _ => ""
  path := ⟨[], ofStr "foo"⟩
  addr := ⟨"n", ∅, ∅⟩
  peers := [()]
  target := fun _ => ()
  alpn := fun _ => syncAlpn
  root := fun _ => [ofStr "store"]
  recv := fun l => match l with
    | .mine _ => ⟨1, 1⟩
    | .other _ => ⟨1, 2⟩
  exportStamp := fun l => match l with
    | .mine _ => ⟨1, 3⟩
    | .other _ => ⟨1, 3 + nanos⟩

/-- The other offer: `bar` with the content 2. -/
def offerBar : SyncOffer where
  hash := textBlobs.collectionHash [("bar", textBlobs.fileHash [2])]
  fileName := "bar"
  senderAddr := ⟨"n", [], none⟩

/-- Both offers are read and fetched; `foo` is exported, then `bar` is, then `foo` is renamed and
answered. -/
def bothAtOnce : List (TrafficAct Unit (List UInt8) String) :=
  [.push .go, .push (.imported [1]), .push .go, .push .go, .push .go,
    .handler (.mine 0) .go, .handler (.mine 0) .go, .handler (.mine 0) .go,
    .handler (.mine 0) (.read ((twoOffers 0).offer "foo" [1])),
    .handler (.mine 0) (.pull .go), .handler (.mine 0) (.pull (.fetched "foo" [] [1])),
    .handler (.mine 0) (.pull .go),
    .handler (.other ()) .go, .handler (.other ()) .go, .handler (.other ()) .go,
    .handler (.other ()) (.read offerBar),
    .handler (.other ()) (.pull .go), .handler (.other ()) (.pull (.fetched "bar" [] [2])),
    .handler (.other ()) (.pull .go),
    .handler (.mine 0) (.pull .go), .handler (.mine 0) .answer, .push .go]

lemma emptyStore_root : ∀ p, node (emptyStore p) [ofStr "store"] = some .dir := by decide

lemma twoOffers_names : exportName ((twoOffers 1).exportStamp (.mine 0))
    ≠ exportName ((twoOffers 1).exportStamp (.other ())) := by decide +kernel

/-- Only two connections lead to the peer. -/
lemma twoOffers_links {nanos : ℕ} {l : Link Unit} {p : Unit}
    (h : (twoOffers nanos).peer l = some p) : l = .mine 0 ∨ l = .other () := by
  cases l with
  | other m => exact .inr rfl
  | mine n =>
      cases n with
      | zero => exact .inl rfl
      | succ n => cases h

theorem bothAtOnce_stored : ∃ s,
    exec (twoOffers 1).step (Traffic.init emptyStore) bothAtOnce = some s
    ∧ s.push.file = some ("foo", [1]) ∧ s.push.results[0]? = some (.ok ())
    ∧ Sometime (twoOffers 1).step (fun t => t.toSender (.mine 0) = none
        ∧ t.handler (.mine 0) = .pulling ((twoOffers 1).offer "foo" [1]) (.done (.ok ()))
        ∧ ∃ p, (twoOffers 1).peers[0]? = some p
          ∧ entry (t.store p) ((twoOffers 1).root p) (ofStr "foo") = some (.file [1]))
        (Traffic.init emptyStore) bothAtOnce := by
  have hrun : (exec (twoOffers 1).step (Traffic.init emptyStore) bothAtOnce).map
      (fun s => (s.push.file, s.push.results[0]?)) = some (some ("foo", [1]), some (.ok ())) := by
    decide +kernel
  obtain ⟨s, hs, heq⟩ := Option.map_eq_some_iff.mp hrun
  obtain ⟨hfile, hresult⟩ := Prod.mk.inj heq
  refine ⟨s, hs, hfile, hresult, acked_stored _ fileHash_textBlobs_injective
    collectionHash_textBlobs_injective emptyStore_root hs ?_ hfile hresult⟩
  rintro t - ⟨l, l', p, hne, hp, hp', -, -, heq⟩
  rcases twoOffers_links hp with rfl | rfl <;> rcases twoOffers_links hp' with rfl | rfl
  · exact hne rfl
  · exact twoOffers_names heq
  · exact twoOffers_names heq.symm
  · exact hne rfl

/-- **An acknowledged push is lost.**  A second apart, the two pulls export under one name: `foo`
gets the content of `bar`, and the sender is told that its push succeeded. -/
theorem acked_lost : Function.Injective (twoOffers (10 ^ 9)).blobs.fileHash
    ∧ Function.Injective (twoOffers (10 ^ 9)).blobs.collectionHash
    ∧ ∃ s, exec (twoOffers (10 ^ 9)).step (Traffic.init emptyStore) bothAtOnce = some s
      ∧ s.push.file = some ("foo", [1]) ∧ s.push.results[0]? = some (.ok ())
      ∧ ¬ Sometime (twoOffers (10 ^ 9)).step
          (fun t => entry (t.store ()) [ofStr "store"] (ofStr "foo") = some (.file [1]))
          (Traffic.init emptyStore) bothAtOnce := by
  have hrun : (exec (twoOffers (10 ^ 9)).step (Traffic.init emptyStore) bothAtOnce).map
      (fun s => (s.push.file, s.push.results[0]?)) = some (some ("foo", [1]), some (.ok ())) := by
    decide +kernel
  obtain ⟨s, hs, heq⟩ := Option.map_eq_some_iff.mp hrun
  obtain ⟨hfile, hresult⟩ := Prod.mk.inj heq
  refine ⟨fileHash_textBlobs_injective, collectionHash_textBlobs_injective, s, hs, hfile, hresult,
    fun h => ?_⟩
  have hnever : ∀ n ≤ bothAtOnce.length,
      (exec (twoOffers (10 ^ 9)).step (Traffic.init emptyStore) (bothAtOnce.take n)).map
        (fun s => entry (s.store ()) [ofStr "store"] (ofStr "foo")) ≠ some (some (.file [1])) := by
    decide +kernel
  obtain ⟨n, hn, t, ht, hentry⟩ := h.exists_take
  refine hnever n hn ?_
  rw [ht, Option.map_some, hentry]

end Dddatasync
