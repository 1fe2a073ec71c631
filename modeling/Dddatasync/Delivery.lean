import Dddatasync.AddressWire
import Dddatasync.NotifyLoop
import Dddatasync.PushAcks
import Dddatasync.GuardedDirs
import Dddatasync.Writers

/-!
A push that meets no fault, with the handlers of its peers and whoever else connects to them.

* `TrafficAct.faultless`: the sender and the handlers of its connections meet no fault; the
  handlers of other connections do what they like.  A handler drops its connection when it has
  answered, and the sender may find it gone before the answer is read.
* `Tame`, `Receptive`: what a `pull` does to the kinds of the entries of a store, and a store that
  can take the file.
* `Delivering`: the invariant of such runs; `Delivering.pushed`, `Delivering.handled`.
* `rank`: how much is left to do; `Delivering.rank_step`, `Delivering.exists_main`: every move of
  the push or of one of its handlers brings the end nearer, and until the end there is one.
* `push_delivers`: such a push reaches every peer, also one whose answer is lost.
-/

namespace Dddatasync

open Fs OsString Runs

variable {μ π C NodeId Sock Relay Hash : Type*}

/-! ### Runs without faults -/

/-- A call of the `pull` fails. -/
def PullMove.failing : PullMove C Hash → Bool
  | .fault | .fail _ | .exportFailed _ => true
  | _ => false

/-- The blob store, the guard or the export works, and the `pull` stays where it is. -/
def PullMove.aside : PullMove C Hash → Bool
  | .chunk _ | .blob _ _ _ | .unlink _ => true
  | _ => false

/-- The handler has returned after its `pull`. -/
def HandlerPc.hasAnswered : HandlerPc C Hash → Bool
  | .answered _ _ _ => true
  | _ => false

/-- The answer the sender waits for went with the connection of its handler. -/
def Traffic.ackLost (s : Traffic μ π C Hash) : Bool :=
  match s.push with
  | .notifying _ _ .waiting results =>
      (s.handler (.mine results.length)).hasAnswered && (s.toSender (.mine results.length)).isNone
  | _ => false

/-- The sender and its connections meet no fault in `s`: the sender fails to read an answer
only if this is lost. -/
def TrafficAct.faultless (s : Traffic μ π C Hash) : TrafficAct μ C Hash → Bool
  | .push (.stop _) => false
  | .push (.fail e) => decide (e = .readAck) && s.ackLost
  | .handler (.mine _) (.fail _) => false
  | .handler (.mine _) (.pull move) => !move.failing
  | _ => true

/-- The sender, or a handler of one of its connections, goes on. -/
def TrafficAct.main : TrafficAct μ C Hash → Bool
  | .push _ => true
  | .handler (.mine _) (.pull move) => !move.aside
  | .handler (.mine _) .close => false
  | .handler (.mine _) _ => true
  | .handler (.other _) _ => false

/-! ### Stores that can take the file -/

section Stores

variable {root : AbsPath} {fs fs' : FileSystem C} {n : OsString}

/-- No entry of the root changes its kind, but that directories come under the names that a `pull`
makes for them and files under other names. -/
def Tame (root : AbsPath) (fs fs' : FileSystem C) : Prop :=
  node fs' root = node fs root ∧ ∀ n, entry fs' root n = entry fs root n
    ∨ entry fs' root n = none ∨ (∃ t, n = recvName t) ∧ entry fs' root n = some .dir
    ∨ (∀ t, n ≠ recvName t) ∧ ∃ c, entry fs' root n = some (.file c)

lemma Tame.refl (fs : FileSystem C) : Tame root fs fs := ⟨rfl, fun _ => .inl rfl⟩

/-- One entry changes. -/
lemma SameExcept.tame (h : SameExcept root n fs fs')
    (hn : entry fs' root n = entry fs root n
      ∨ entry fs' root n = none ∨ (∃ t, n = recvName t) ∧ entry fs' root n = some .dir
      ∨ (∀ t, n ≠ recvName t) ∧ ∃ c, entry fs' root n = some (.file c)) : Tame root fs fs' := by
  refine ⟨h.root_eq, fun m => ?_⟩
  by_cases hm : m = n
  · rw [hm]
    exact hn
  · exact .inl (h.entry_eq m hm)

lemma createDirAll_dir (hn : Plain n) (h : createDirAll fs ⟨root, n⟩ = .ok fs') :
    entry fs' root n = some .dir := by
  simp only [createDirAll, resolve_plain fs root hn, node_snoc] at h
  cases hx : entry fs root n with
  | none =>
      rw [hx] at h
      obtain rfl := Except.ok.inj h
      exact entry_insert_self _ _ _ _
  | some x =>
      cases x with
      | dir =>
          rw [hx] at h
          obtain rfl := Except.ok.inj h
          exact hx
      | file d =>
          rw [hx] at h
          cases h

variable {k : Codec NodeId Sock Relay Hash} {b : Blobs C Hash} {p : PullCall}
  {pc pc' : PullPc C Hash} {move : PullMove C Hash} [DecidableEq Hash]

omit [DecidableEq Hash] in
lemma pullWrite_tame {content : C} {next : PullPc C Hash}
    (h : pullWrite root p content next fs = some (pc', fs')) : Tame root fs fs' := by
  obtain ⟨-, hsame, hfile⟩ := pullWrite_same h
  exact hsame.tame (.inr (.inr (.inr ⟨exportName_ne_recvName _, content, hfile⟩)))

omit [DecidableEq Hash] in
lemma pullStart_tame {k : Codec NodeId Sock Relay Hash}
    (h : pullStart k root p fs = (pc', fs')) : Tame root fs fs' := by
  rw [pullStart] at h
  split_ifs at h
  · split at h
    · obtain ⟨-, rfl⟩ := Prod.mk.inj h
      exact .refl fs
    · obtain ⟨-, hdir⟩ | ⟨-, fs₁, hdir, hsame⟩ := createDirAll_cases root fs (plain_recvName p.recv)
      · rw [hdir] at h
        obtain ⟨-, rfl⟩ := Prod.mk.inj h
        exact .refl fs
      · rw [hdir] at h
        obtain ⟨-, rfl⟩ := Prod.mk.inj h
        exact hsame.tame (.inr (.inr (.inl ⟨⟨_, rfl⟩, createDirAll_dir (plain_recvName _) hdir⟩)))
  · obtain ⟨-, rfl⟩ := Prod.mk.inj h
    exact .refl fs

omit [DecidableEq Hash] in
/-- The rename goes to the name of the offer, which is no name that a `pull` makes up. -/
lemma pullRename_tame (hroot : node fs root = some .dir) (hsafe : safeName p.fileName = true)
    (h : pullRename root p fs = (pc', fs')) : Tame root fs fs' := by
  rw [pullRename] at h
  split at h
  · obtain ⟨-, rfl⟩ := Prod.mk.inj h
    exact .refl fs
  · rename_i hren
    obtain ⟨-, rfl⟩ := Prod.mk.inj h
    obtain ⟨hslash, hvisible⟩ := safeName_visible hsafe
    have hexport := plain_exportName p.exportStamp
    obtain hnil | hnul | hplain := visible_name_cases hslash hvisible
    · simp only [Fs.rename, resolve_plain fs root hexport, hnil, resolve_nil, hroot] at hren
      split at hren <;> simp_all
    · have hres : resolve fs ⟨root, ofStr p.fileName⟩ = .error .invalidInput := by
        rw [resolve, if_pos hnul]
      simp only [Fs.rename, resolve_plain fs root hexport, hres] at hren
      cases hren
    · obtain ⟨c, -, rfl⟩ := rename_plain hexport hplain hren
      refine ⟨?_, fun m => ?_⟩
      · rw [node_insert_of_ne _ _ (root_ne_child root _),
          node_erase_of_ne _ (root_ne_child root _)]
      · by_cases hm : m = ofStr p.fileName
        · subst hm
          refine .inr (.inr (.inr ⟨fun t ht => ?_, c, entry_insert_self _ _ _ _⟩))
          exact not_visible_recvName t (ht ▸ hvisible)
        · rw [entry_insert_of_ne _ _ (by simpa using hm)]
          by_cases hm' : m = exportName p.exportStamp
          · rw [hm', entry_erase_self]
            exact .inr (.inl rfl)
          · exact .inl (entry_erase_of_ne _ (by simpa using hm'))

/-- **What a `pull` does to the kinds of the entries.** -/
lemma pullStep_tame (h : pullStep k b root p fs pc move = some (pc', fs'))
    (hroot : node fs root = some .dir)
    (hsafe : ∀ c, pc = .publishing c → move = .go → safeName p.fileName = true) :
    Tame root fs fs' := by
  cases pullStep_moved h with
  | began _ result => exact pullStart_tame result
  | unmade _ _ fs_eq | unfetched _ _ fs_eq | empty _ _ fs_eq | fetched _ _ _ _ _ fs_eq
  | unexported _ _ fs_eq | unrenamed _ fs_eq =>
      rw [fs_eq]
      exact .refl fs
  | wrote _ _ _ result | exported _ _ result => exact pullWrite_tame result
  | renamed c _ result => exact pullRename_tame hroot (hsafe c rfl rfl) result
  | stored _ name below x _ _ fs_eq =>
      subst fs_eq
      exact ⟨node_setNode_deep below (recvName p.recv) name x,
        fun m => .inl (entry_setNode_deep below (recvName p.recv) name x)⟩
  | unlinked r below fs_eq =>
      subst fs_eq
      refine (unlink_sameExcept (recvName p.recv) below).tame ?_
      rw [entry_unlink]
      split_ifs
      · exact .inr (.inl rfl)
      · exact .inl rfl

end Stores

/-! ### The invariant -/

/-- The call has not failed. -/
def PullPc.Smooth (pc : PullPc C Hash) : Prop := ∀ e, pc.result ≠ some (.error e)

/-- A call that is over and has not failed has succeeded. -/
lemma PullPc.Smooth.eq_done {pc : PullPc C Hash} (h : pc.Smooth) {r : Except PullError Unit}
    (hr : pc.result = some r) : pc = .done (.ok ()) := by
  cases pc with
  | done r =>
      cases r with
      | ok => rfl
      | error e => exact absurd rfl (h e)
  | refused e => exact absurd rfl (h e)
  | start | fetching | exporting | publishing => cases hr

/-- The handler has met no fault. -/
def HandlerPc.Smooth : HandlerPc C Hash → Prop
  | .pulling _ pc => pc.Smooth
  | .closed _ => False
  | _ => True

/-- How many moves a `pull` has left before its answer, its answer included. -/
def PullPc.left : PullPc C Hash → ℕ
  | .start => 5
  | .fetching _ => 4
  | .exporting _ => 3
  | .publishing _ => 2
  | .refused _ | .done _ => 1

/-- How many moves a handler has left. -/
def HandlerPc.left : HandlerPc C Hash → ℕ
  | .idle => 9
  | .accepting => 8
  | .opening => 7
  | .reading => 6
  | .pulling _ pc => pc.left
  | .answered _ _ _ | .closed _ => 0

section Delivery

variable [LinearOrder Sock] [LinearOrder Relay]

/-- The store of `p` can take the file `f`: nothing else stands where a `pull` puts its directory,
its export or the file. -/
structure Receptive (w : Pushing μ π C NodeId Sock Relay Hash) (f : String) (p : π)
    (fs : FileSystem C) : Prop where
  root_dir : node fs (w.root p) = some .dir
  target : entry fs (w.root p) (ofStr f) ≠ some .dir
  recv : ∀ n d, entry fs (w.root p) (recvName (w.recv (.mine n))) ≠ some (.file d)
  staged : ∀ n, entry fs (w.root p) (exportName (w.exportStamp (.mine n))) ≠ some .dir

/-- What `notify_peer` returns where nothing goes wrong: the answer is good, or it is lost. -/
def Taken (r : Except NotifyError Unit) : Prop := r = .ok () ∨ r = .error .readAck

/-- The push is under way or over, and has met no fault so far. -/
def Pushing.Sending (w : Pushing μ π C NodeId Sock Relay Hash) (f : String) : PushPc C → Prop
  | .start => True
  | .preparing g => g = f
  | .notifying g _ _ results =>
      g = f ∧ (∀ r ∈ results, Taken r) ∧ results.length < w.peers.length
  | .finished g _ results =>
      g = f ∧ (∀ r ∈ results, Taken r) ∧ results.length = w.peers.length
  | .stopped _ => False

/-- What is known of the sender and its connections while nothing has gone wrong. -/
structure Delivering (w : Pushing μ π C NodeId Sock Relay Hash) (f : String)
    (s : Traffic μ π C Hash) : Prop where
  ready : ∀ p, Receptive w f p (s.store p)
  push : w.Sending f s.push
  waiting : ∀ g c results, s.push = .notifying g c .waiting results →
    s.toPeer (.mine results.length) = some (w.offer g c)
  smooth : ∀ n, (s.handler (.mine n)).Smooth
  dialled : ∀ n, s.handler (.mine n) ≠ .idle → n < w.peers.length
  answered : ∀ n offer pc r, s.handler (.mine n) = .answered offer pc r → pc = .done (.ok ())
  acks : ∀ n ack, s.toSender (.mine n) = some ack → ack.ok = true
  reached : ∀ n < s.push.results.length,
    ∃ offer, (s.handler (.mine n)).call = some (offer, .done (.ok ()))

variable {w : Pushing μ π C NodeId Sock Relay Hash} {f : String} {p : π} {fs fs' : FileSystem C}
  {s s' : Traffic μ π C Hash} {l : Link μ}

omit [LinearOrder Sock] [LinearOrder Relay] in
lemma Receptive.tame (h : Receptive w f p fs) (hsafe : safeName f = true)
    (ht : Tame (w.root p) fs fs') : Receptive w f p fs' := by
  refine ⟨ht.1.trans h.root_dir, fun hdir => ?_, fun n d hfile => ?_, fun n hdir => ?_⟩
  · obtain heq | heq | ⟨⟨t, ht⟩, -⟩ | ⟨-, c, heq⟩ := ht.2 (ofStr f)
    · exact h.target (heq ▸ hdir)
    · rw [heq] at hdir
      cases hdir
    · exact not_visible_recvName t (ht ▸ (safeName_visible hsafe).2)
    · rw [heq] at hdir
      cases hdir
  · obtain heq | heq | ⟨-, heq⟩ | ⟨hne, -⟩ := ht.2 (recvName (w.recv (.mine n)))
    · exact h.recv n d (heq ▸ hfile)
    · rw [heq] at hfile
      cases hfile
    · rw [heq] at hfile
      cases hfile
    · exact hne _ rfl
  · obtain heq | heq | ⟨⟨t, ht⟩, -⟩ | ⟨-, c, heq⟩ := ht.2 (exportName (w.exportStamp (.mine n)))
    · exact h.staged n (heq ▸ hdir)
    · rw [heq] at hdir
      cases hdir
    · exact exportName_ne_recvName _ _ ht
    · rw [heq] at hdir
      cases hdir

lemma delivering_init {store : π → FileSystem C} (hready : ∀ p, Receptive w f p (store p)) :
    Delivering w f (Traffic.init store) where
  ready := hready
  push := trivial
  waiting := by simp [Traffic.init]
  smooth := fun _ => trivial
  dialled := by simp [Traffic.init]
  answered := by simp [Traffic.init]
  acks := by simp [Traffic.init]
  reached := by simp [Traffic.init, PushPc.results]

/-! ### The sender -/

variable [DecidableEq μ]

omit [LinearOrder Sock] [LinearOrder Relay] [DecidableEq μ] in
lemma sending_notified {c : C} {results : List (Except NotifyError Unit)}
    {r : Except NotifyError Unit} (hall : ∀ r ∈ results, Taken r) (hr : Taken r)
    (hlen : results.length < w.peers.length) : w.Sending f (w.notified f c results r) := by
  have hall' : ∀ r' ∈ results ++ [r], Taken r' := by
    intro r' hr'
    obtain hr' | hr' := List.mem_append.mp hr'
    · exact hall r' hr'
    · rwa [List.mem_singleton.mp hr']
  rw [Pushing.notified]
  split_ifs with hmore
  · exact ⟨rfl, hall', by rwa [List.length_append]⟩
  · refine ⟨rfl, hall', ?_⟩
    rw [List.length_append, List.length_singleton]
    omega

omit [LinearOrder Sock] [LinearOrder Relay] [DecidableEq μ] in
lemma notified_ne_waiting {c d : C} {g : String} {results results' : List (Except NotifyError Unit)}
    {r : Except NotifyError Unit} :
    w.notified f c results r ≠ .notifying g d .waiting results' := by
  rw [Pushing.notified]
  split_ifs <;> simp

omit [DecidableEq μ] in
/-- `notify_peer` returns, for a peer that has taken the file. -/
lemma Delivering.notified (h : Delivering w f s) {g : String} {c : C}
    {results : List (Except NotifyError Unit)}
    (hpush : s.push = .notifying g c .waiting results) {r : Except NotifyError Unit}
    (hr : Taken r) (hreached : ∃ offer,
      (s.handler (.mine results.length)).call = some (offer, .done (.ok ()))) :
    Delivering w f { s with push := w.notified g c results r } := by
  have hsending := h.push
  rw [hpush] at hsending
  obtain ⟨rfl, hall, hlen⟩ := hsending
  refine { h with
    push := sending_notified hall hr hlen
    waiting := fun _ _ _ heq => absurd heq notified_ne_waiting
    reached := fun n hn => ?_ }
  have hresults : (w.notified g c results r).results = results ++ [r] := notified_file.2
  have hn : n < (w.notified g c results r).results.length := hn
  rw [hresults, List.length_append, List.length_singleton] at hn
  rcases Nat.lt_succ_iff_lt_or_eq.mp hn with hn | rfl
  · exact h.reached n (by rw [hpush]; exact hn)
  · exact hreached

/-- **A move of the sender** that meets no fault. -/
lemma Delivering.pushed (h : Delivering w f s) (hI : AckInv w stored s) (hpeers : w.peers ≠ [])
    (hname : (fileName w.path).bind toStr = some f) {move : PushMove C}
    (hmove : (TrafficAct.push move : TrafficAct μ C Hash).faultless s = true)
    (hs : w.pushStep s s.push move = some s') : Delivering w f s' := by
  have hsending := h.push
  -- nobody is notified before the import
  have hnone : ∀ {pc : PushPc C}, pc.results = [] → ∀ n < pc.results.length,
      ∃ offer, (s.handler (.mine n)).call = some (offer, .done (.ok ())) := by
    intro pc hpc n hn
    rw [hpc] at hn
    exact absurd hn (Nat.not_lt_zero n)
  cases hpc : s.push with
  | start =>
      rw [hpc] at hs
      cases move with
      | go =>
          simp only [Pushing.pushStep, if_neg hpeers, hname] at hs
          cases hs
          exact { h with push := rfl, waiting := by simp, reached := hnone rfl }
      | imported | fail => simp [Pushing.pushStep] at hs
      | stop => cases hmove
  | preparing g =>
      rw [hpc] at hs hsending
      cases move with
      | imported c =>
          cases hs
          exact { h with
            push := ⟨hsending, by simp, List.length_pos_iff.mpr hpeers⟩
            waiting := by simp
            reached := hnone rfl }
      | go | fail => simp [Pushing.pushStep] at hs
      | stop => cases hmove
  | notifying g c call results =>
      have hreached := h.reached
      rw [hpc] at hs hsending hreached
      cases move with
      | go =>
          cases call with
          | connecting | opening =>
              cases hs
              exact { h with push := hsending, waiting := by simp, reached := hreached }
          | writing =>
              obtain rfl := Option.some.inj hs
              refine { h with
                push := hsending, waiting := fun g' c' results' heq => ?_, reached := hreached }
              cases heq
              exact Function.update_self ..
          | waiting =>
              simp only [Pushing.pushStep] at hs
              split at hs
              · cases hs
              · rename_i ack hack
                obtain rfl := Option.some.inj hs
                have hok := h.acks _ ack hack
                rw [if_pos hok]
                exact h.notified hpc (.inl rfl) (hI.acked _ ack hack hok)
      | fail e =>
          obtain ⟨he, hlost⟩ := Bool.and_eq_true_iff.mp hmove
          obtain rfl := of_decide_eq_true he
          rw [Traffic.ackLost, hpc] at hlost
          cases call with
          | waiting =>
              obtain rfl := Option.some.inj hs
              refine h.notified hpc (.inr rfl) ?_
              cases hat : s.handler (.mine results.length) with
              | answered offer qc r =>
                  obtain rfl := h.answered _ offer qc r hat
                  exact ⟨offer, rfl⟩
              | idle | accepting | opening | reading | pulling | closed =>
                  simp [hat, HandlerPc.hasAnswered] at hlost
          | connecting | opening | writing => cases hlost
      | imported => cases call <;> simp [Pushing.pushStep] at hs
      | stop => cases hmove
  | finished =>
      rw [hpc] at hs
      cases move <;> simp [Pushing.pushStep] at hs
  | stopped =>
      rw [hpc] at hsending
      exact hsending.elim

/-! ### The handlers -/

section Pull

variable {k : Codec NodeId Sock Relay Hash} {b : Blobs C Hash} {root : AbsPath} {c : PullCall}
  {got : OsString → C → Prop} {pc pc' : PullPc C Hash} {move : PullMove C Hash} {hash : Hash}

omit [LinearOrder Sock] [LinearOrder Relay] [DecidableEq μ] in
/-- The checks and `create_dir_all`, where nothing is in the way. -/
lemma pullStart_fetching (hsafe : safeName c.fileName = true)
    (hparse : k.parseHash c.hash = some hash)
    (hrecv : ∀ d, entry fs root (recvName c.recv) ≠ some (.file d)) :
    ∃ fs', pullStart k root c fs = (.fetching hash, fs') := by
  have hresolve := resolve_plain fs root (plain_recvName c.recv)
  rw [pullStart, if_pos hsafe]
  simp only [hparse, createDirAll, hresolve, node_snoc]
  cases hx : entry fs root (recvName c.recv) with
  | none => exact ⟨_, rfl⟩
  | some x =>
      cases x with
      | dir => exact ⟨_, rfl⟩
      | file d => exact absurd hx (hrecv d)

omit [LinearOrder Sock] [LinearOrder Relay] [DecidableEq μ] in
lemma pullWrite_ok {content : C} {next : PullPc C Hash}
    (hstaged : entry fs root (exportName c.exportStamp) ≠ some .dir) :
    ∃ fs', pullWrite root c content next fs = some (next, fs') := by
  have hresolve := resolve_plain fs root (plain_exportName c.exportStamp)
  simp only [pullWrite, write, hresolve, node_snoc]
  cases hx : entry fs root (exportName c.exportStamp) with
  | none => exact ⟨_, rfl⟩
  | some x =>
      cases x with
      | dir => exact absurd hx hstaged
      | file d => exact ⟨_, rfl⟩

variable [DecidableEq Hash]

omit [LinearOrder Sock] [LinearOrder Relay] [DecidableEq μ] in
/-- **A move of a `pull`** that meets no fault, into a store that can take the file. -/
lemma pullStep_smooth (h : pullStep k b root c fs pc move = some (pc', fs'))
    (hmove : move.failing = false) (hsmooth : pc.Smooth) (hok : PullOk k root c got fs pc)
    (hroot : node fs root = some .dir) (hsafe : safeName c.fileName = true)
    (hparse : k.parseHash c.hash = some hash) (hfull : b.collectionHash [] ≠ hash)
    (hplain : Plain (ofStr c.fileName)) (htarget : entry fs root (ofStr c.fileName) ≠ some .dir)
    (hrecv : ∀ d, entry fs root (recvName c.recv) ≠ some (.file d)) :
    pc'.Smooth ∧ pc'.left + (if move.aside then 0 else 1) ≤ pc.left := by
  cases pullStep_moved h with
  | began pc' result =>
      obtain ⟨fs₁, hfetching⟩ := pullStart_fetching hsafe hparse hrecv
      rw [hfetching] at result
      obtain ⟨rfl, -⟩ := Prod.mk.inj result
      exact ⟨by simp [PullPc.Smooth, PullPc.result], Nat.le_refl _⟩
  | unmade | unfetched | unexported | unrenamed => cases hmove
  | empty hash' stands fs_eq =>
      obtain ⟨-, hparse'⟩ := hok.begun hash' rfl
      obtain rfl := Option.some.inj (hparse.symm.trans hparse')
      exact absurd stands hfull
  | fetched hash' name rest d stands fs_eq =>
      exact ⟨by simp [PullPc.Smooth, PullPc.result], Nat.le_refl _⟩
  | wrote d part pc' result =>
      obtain ⟨rfl, -⟩ := pullWrite_same result
      exact ⟨hsmooth, Nat.le_refl _⟩
  | exported d pc' result =>
      obtain ⟨rfl, -⟩ := pullWrite_same result
      exact ⟨by simp [PullPc.Smooth, PullPc.result], Nat.le_refl _⟩
  | renamed d pc' result =>
      obtain ⟨-, -, hentry⟩ := hok.exported d rfl
      obtain ⟨-, hnot⟩ | ⟨-, fs₁, hren, -⟩ := rename_hidden hroot
        (plain_exportName c.exportStamp) (not_visible_exportName c.exportStamp) hentry hsafe
      · exact absurd ⟨hplain, htarget⟩ hnot
      · rw [pullRename, hren] at result
        obtain ⟨rfl, -⟩ := Prod.mk.inj result
        exact ⟨by simp [PullPc.Smooth, PullPc.result], Nat.le_refl _⟩
  | stored pc name below x called running fs_eq => exact ⟨hsmooth, Nat.le_refl _⟩
  | unlinked r below fs_eq => exact ⟨hsmooth, Nat.le_refl _⟩

end Pull

variable [DecidableEq π] [DecidableEq Hash] {stored : Link μ → SyncOffer → Prop}
  {move : HandlerMove C Hash}

omit [LinearOrder Sock] [LinearOrder Relay] in
lemma pullMove_tame {offer : SyncOffer} {pc : PullPc C Hash}
    {next : PullPc C Hash → HandlerPc C Hash} {move : PullMove C Hash}
    (hroot : ∀ p, node (s.store p) (w.root p) = some .dir)
    (hsafe : ∀ c, pc = .publishing c → move = .go → safeName offer.fileName = true)
    (h : w.pullMove s l offer pc next move = some s') (p : π) :
    Tame (w.root p) (s.store p) (s'.store p) := by
  rw [Pushing.pullMove] at h
  cases hp : w.peer l with
  | none =>
      rw [hp] at h
      cases h
  | some q =>
      rw [hp] at h
      obtain ⟨⟨pc', fs'⟩, ho, rfl⟩ := Option.map_eq_some_iff.mp h
      by_cases hq : p = q
      · subst hq
        simp only [Function.update_self]
        exact pullStep_tame ho (hroot p) hsafe
      · simp only [Function.update_of_ne hq]
        exact .refl _

/-- A move of any handler is one of its `pull`, or it leaves the stores alone. -/
lemma handlerStep_tame (hI : AckInv w stored s)
    (hs : w.handlerStep s l (s.handler l) move = some s') (p : π) :
    Tame (w.root p) (s.store p) (s'.store p) := by
  cases hpc : s.handler l with
  | pulling offer pc =>
      rw [hpc] at hs
      cases move with
      | pull move =>
          cases hp : w.peer l with
          | none =>
              rw [Pushing.handlerStep, Pushing.pullMove, hp] at hs
              cases hs
          | some q =>
              refine pullMove_tame hI.root_dir (fun c hc _ => ?_) hs p
              exact ((hI.pulls l q offer pc hp hpc).exported c hc).1
      | answer =>
          obtain ⟨r, -, rfl⟩ := Option.map_eq_some_iff.mp hs
          exact .refl _
      | fail e =>
          cases e with
          | writeAck | panicked =>
              simp only [Pushing.handlerStep] at hs
              split_ifs at hs
              cases hs
              exact .refl _
          | accept | acceptBi | readOffer | senderAddr | pull =>
              simp [Pushing.handlerStep] at hs
      | go | read | close => simp [Pushing.handlerStep] at hs
  | answered offer pc r =>
      rw [hpc] at hs
      cases move with
      | pull move =>
          cases move with
          | unlink below =>
              have hmove : w.pullMove s l offer pc (fun pc' => .answered offer pc' r)
                  (.unlink below) = some s' := hs
              exact pullMove_tame hI.root_dir (fun _ _ hgo => by cases hgo) hmove p
          | go | fault | fail | empty | fetched | chunk | exportFailed | blob =>
              simp [Pushing.handlerStep] at hs
      | close =>
          simp only [Pushing.handlerStep] at hs
          split_ifs at hs
          cases hs
          exact .refl _
      | go | fail | read | answer => simp [Pushing.handlerStep] at hs
  | idle | accepting | opening | reading | closed =>
      cases handlerStep_stepped hs with
      | early | got => exact .refl _
      | pulled _ _ _ _ _ _ was | cleaned _ _ _ _ _ _ was | answered _ _ _ was
      | dropped _ _ _ was | closed _ _ _ was =>
          rw [hpc] at was
          cases was

omit [LinearOrder Sock] [LinearOrder Relay] [DecidableEq Hash] in
/-- A move of a handler is seen on its own connection only. -/
lemma HandlerStepped.elsewhere (h : HandlerStepped w s l s') : s'.push = s.push
    ∧ s'.toPeer = s.toPeer ∧ ∀ l', l' ≠ l → s'.handler l' = s.handler l'
      ∧ s'.toSender l' = s.toSender l' := by
  cases h with
  | answered =>
      exact ⟨rfl, rfl, fun l' hl => ⟨Function.update_of_ne hl _ _, Function.update_of_ne hl _ _⟩⟩
  | closed => exact ⟨rfl, rfl, fun l' hl => ⟨rfl, Function.update_of_ne hl _ _⟩⟩
  | early | got | pulled | cleaned | dropped =>
      exact ⟨rfl, rfl, fun l' hl => ⟨Function.update_of_ne hl _ _, rfl⟩⟩

omit [LinearOrder Sock] [LinearOrder Relay] [DecidableEq μ] [DecidableEq π] [DecidableEq Hash] in
lemma Sending.file {pc : PushPc C} {g : String} {c : C} (h : w.Sending f pc)
    (hfile : pc.file = some (g, c)) : g = f := by
  cases pc with
  | notifying g' c' call results =>
      obtain ⟨rfl, -⟩ := Prod.mk.inj (Option.some.inj hfile)
      exact h.1
  | finished g' c' results =>
      obtain ⟨rfl, -⟩ := Prod.mk.inj (Option.some.inj hfile)
      exact h.1
  | start | preparing | stopped => cases hfile

omit [LinearOrder Sock] [LinearOrder Relay] [DecidableEq μ] [DecidableEq π] [DecidableEq Hash] in
lemma Sending.dialled {pc : PushPc C} {n : ℕ} (h : w.Sending f pc) (hn : pc.dialled n = true) :
    n < w.peers.length := by
  cases pc with
  | notifying g c call results => exact lt_of_le_of_lt (of_decide_eq_true hn) h.2.2
  | finished g c results => exact h.2.2 ▸ of_decide_eq_true hn
  | start | preparing | stopped => cases hn

omit [LinearOrder Sock] [LinearOrder Relay] [DecidableEq Hash] in
/-- A `pull` that succeeded has done so for good. -/
lemma HandlerStepped.reached (h : HandlerStepped w s l s') {l' : Link μ} {offer : SyncOffer}
    (hcall : (s.handler l').call = some (offer, .done (.ok ()))) :
    (s'.handler l').call = some (offer, .done (.ok ())) := by
  by_cases hl : l' = l
  swap
  · rw [(h.elsewhere.2.2 l' hl).1]
    exact hcall
  subst hl
  have hmoved : ∀ {pc : HandlerPc C Hash}, pc.call = some (offer, .done (.ok ())) →
      (Function.update s.handler l' pc l').call = some (offer, .done (.ok ())) := by
    intro pc hpc
    rwa [Function.update_self]
  cases h with
  | early pc was | got _ was =>
      rw [was] at hcall
      cases hcall
  | pulled p o pc pc' fs' peer was stepped =>
      rw [was] at hcall
      obtain ⟨rfl, rfl⟩ := Prod.mk.inj (Option.some.inj hcall)
      rw [pullStepped_of_done stepped]
      exact hmoved rfl
  | cleaned p o pc r fs' peer was | answered o pc r was | dropped o pc e was =>
      rw [was] at hcall
      exact hmoved hcall
  | closed => exact hcall

/-- What the handler of the `n`-th connection has come to, after a move without a fault. -/
structure Went (w : Pushing μ π C NodeId Sock Relay Hash) (n : ℕ) (move : HandlerMove C Hash)
    (s s' : Traffic μ π C Hash) : Prop where
  dialled : n < w.peers.length
  smooth : (s'.handler (.mine n)).Smooth
  answered : ∀ offer pc r, s'.handler (.mine n) = .answered offer pc r → pc = .done (.ok ())
  acks : ∀ ack, s'.toSender (.mine n) = some ack → ack.ok = true
  left : (s'.handler (.mine n)).left
      + (if (TrafficAct.handler (.mine n) move : TrafficAct μ C Hash).main then 1 else 0)
    ≤ (s.handler (.mine n)).left

omit [DecidableEq π] [DecidableEq Hash] in
/-- A handler that has no offer yet, or has just got one. -/
lemma Delivering.goes (h : Delivering w f s) {n : ℕ} {pc : HandlerPc C Hash}
    (hn : n < w.peers.length) (hsmooth : pc.Smooth) (hpc : ∀ offer qc r, pc ≠ .answered offer qc r)
    (hleft : pc.left + 1 ≤ (s.handler (.mine n)).left) :
    Went w n move s (Pushing.goes s (.mine n) pc) := by
  have hself : (Pushing.goes s (.mine n) pc).handler (.mine n) = pc := Function.update_self ..
  refine ⟨hn, by rwa [hself], fun offer qc r heq => ?_, h.acks n, ?_⟩
  · exact absurd (hself.symm.trans heq) (hpc offer qc r)
  · rw [hself]
    split_ifs <;> omega

/-- A pull of the push goes on, and its handler answers when it has succeeded. -/
lemma Delivering.pulled (h : Delivering w f s) (hI : AckInv w stored s)
    (hsafe : safeName f = true) (hplain : Plain (ofStr f))
    (hcollections : Function.Injective w.blobs.collectionHash) {n : ℕ} {offer : SyncOffer}
    {pc : PullPc C Hash} (hpc : s.handler (.mine n) = .pulling offer pc)
    (hmove : (TrafficAct.handler (.mine n) move : TrafficAct μ C Hash).faultless s = true)
    (hs : w.handlerStep s (.mine n) (.pulling offer pc) move = some s') : Went w n move s s' := by
  have hn := h.dialled n (by simp [hpc])
  have hsmooth := h.smooth n
  rw [hpc] at hsmooth
  cases move with
  | pull move =>
      have hp : w.peer (.mine n) = some w.peers[n] := List.getElem?_eq_getElem hn
      rw [Pushing.handlerStep, Pushing.pullMove, hp] at hs
      obtain ⟨⟨pc', fs'⟩, ho, rfl⟩ := Option.map_eq_some_iff.mp hs
      -- it is the offer of the push
      obtain ⟨g, c, hfile, rfl⟩ := hI.offered n offer pc (by rw [hpc]; rfl)
      obtain rfl := Sending.file h.push hfile
      have hready := h.ready w.peers[n]
      have hempty : w.blobs.collectionHash [] ≠ w.importHash g c :=
        fun heq => by cases hcollections heq
      obtain ⟨hsmooth', hleft⟩ := pullStep_smooth ho
        (by simpa [TrafficAct.faultless] using hmove) hsmooth
        (hI.pulls _ _ _ _ hp hpc) hready.root_dir hsafe (w.codec.parse_printHash _) hempty
        hplain hready.target (hready.recv n)
      have hself : Function.update s.handler (.mine n) (.pulling (w.offer g c) pc') (.mine n)
          = .pulling (w.offer g c) pc' := Function.update_self ..
      refine ⟨hn, ?_, fun o qc r heq => ?_, h.acks n, ?_⟩
      · simp only [hself]
        exact hsmooth'
      · simp only [hself] at heq
        cases heq
      · simp only [hself, hpc, TrafficAct.main, HandlerPc.left]
        by_cases haside : move.aside = true
        · simpa [haside] using hleft
        · simpa [haside] using hleft
  | answer =>
      obtain ⟨r, hr, rfl⟩ := Option.map_eq_some_iff.mp hs
      obtain ⟨hr, -⟩ := PullPc.returned_eq.mp hr
      obtain rfl : pc = .done (.ok ()) := hsmooth.eq_done hr
      obtain rfl := Option.some.inj hr
      refine ⟨hn, ?_, fun _ _ _ heq => ?_, fun ack hack => ?_, ?_⟩
      · simp only [Pushing.answer, Function.update_self]
        trivial
      · simp only [Pushing.answer, Function.update_self] at heq
        cases heq
        rfl
      · simp only [Pushing.answer, Function.update_self] at hack
        obtain rfl := Option.some.inj hack
        rfl
      · simp only [Pushing.answer, Function.update_self, hpc]
        exact le_rfl
  | fail => cases hmove
  | go | read | close => simp [Pushing.handlerStep] at hs

/-- Behind the answer a handler clears up and drops its connection. -/
lemma Delivering.afterAnswer (h : Delivering w f s) {n : ℕ} {offer : SyncOffer}
    {pc : PullPc C Hash} {r : Except HandlerError Unit}
    (hpc : s.handler (.mine n) = .answered offer pc r)
    (hmove : (TrafficAct.handler (.mine n) move : TrafficAct μ C Hash).faultless s = true)
    (hs : w.handlerStep s (.mine n) (.answered offer pc r) move = some s') :
    Went w n move s s' := by
  have hn := h.dialled n (by simp [hpc])
  cases move with
  | pull move =>
      cases move with
      | unlink below =>
          have hp : w.peer (.mine n) = some w.peers[n] := List.getElem?_eq_getElem hn
          simp only [Pushing.handlerStep, Pushing.pullMove, hp] at hs
          obtain ⟨⟨pc', fs'⟩, ho, rfl⟩ := Option.map_eq_some_iff.mp hs
          obtain rfl := h.answered n offer pc r hpc
          refine ⟨hn, ?_, fun _ _ _ heq => ?_, h.acks n, ?_⟩
          · simp only [Function.update_self]
            trivial
          · simp only [Function.update_self] at heq
            cases heq
            exact (unlink_same ho).1
          · simp only [Function.update_self, hpc]
            exact le_rfl
      | go | fault | fail | empty | fetched | chunk | exportFailed | blob =>
          simp [Pushing.handlerStep] at hs
  | close =>
      simp only [Pushing.handlerStep] at hs
      split_ifs at hs
      cases hs
      refine ⟨hn, h.smooth n, h.answered n, fun ack hack => ?_, le_rfl⟩
      simp only [Function.update_self] at hack
      cases hack
  | go | read | answer => simp [Pushing.handlerStep] at hs
  | fail => cases hmove

/-- **A move of a handler of the push** that meets no fault. -/
lemma Delivering.handled (h : Delivering w f s) (hI : AckInv w stored s)
    (hsafe : safeName f = true) (hplain : Plain (ofStr f))
    (hcollections : Function.Injective w.blobs.collectionHash) {n : ℕ}
    (hmove : (TrafficAct.handler (.mine n) move : TrafficAct μ C Hash).faultless s = true)
    (hs : w.handlerStep s (.mine n) (s.handler (.mine n)) move = some s') :
    Went w n move s s' := by
  have hsmooth := h.smooth n
  cases hpc : s.handler (.mine n) with
  | idle =>
      rw [hpc] at hs
      cases move with
      | go =>
          simp only [Pushing.handlerStep] at hs
          split_ifs at hs with hin
          cases hs
          exact h.goes (Sending.dialled h.push hin) trivial (by simp) (by rw [hpc]; exact le_rfl)
      | fail | read | pull | answer | close => simp [Pushing.handlerStep] at hs
  | accepting =>
      have hn := h.dialled n (by simp [hpc])
      rw [hpc] at hs
      cases move with
      | go =>
          have halpn : w.linkAlpn (.mine n) = syncAlpn := rfl
          rw [Pushing.handlerStep, if_neg (not_not.mpr halpn)] at hs
          cases hs
          exact h.goes hn trivial (by simp) (by rw [hpc]; exact le_rfl)
      | fail => cases hmove
      | read | pull | answer | close => simp [Pushing.handlerStep] at hs
  | opening =>
      have hn := h.dialled n (by simp [hpc])
      rw [hpc] at hs
      cases move with
      | go =>
          cases hs
          exact h.goes hn trivial (by simp) (by rw [hpc]; exact le_rfl)
      | fail => cases hmove
      | read | pull | answer | close => simp [Pushing.handlerStep] at hs
  | reading =>
      have hn := h.dialled n (by simp [hpc])
      rw [hpc] at hs
      cases move with
      | read offer =>
          simp only [Pushing.handlerStep] at hs
          split_ifs at hs with hread
          obtain ⟨g, c, -, rfl⟩ := hI.written n offer (of_decide_eq_true hread)
          rw [Pushing.readOffer, Pushing.offer, toEndpointAddr_fromEndpointAddr] at hs
          obtain rfl := Option.some.inj hs
          exact h.goes hn (by simp [HandlerPc.Smooth, PullPc.Smooth, PullPc.result]) (by simp)
            (by rw [hpc]; exact le_rfl)
      | fail => cases hmove
      | go | pull | answer | close => simp [Pushing.handlerStep] at hs
  | pulling offer pc =>
      rw [hpc] at hs
      exact h.pulled hI hsafe hplain hcollections hpc hmove hs
  | answered offer pc r =>
      rw [hpc] at hs
      exact h.afterAnswer hpc hmove hs
  | closed r =>
      rw [hpc] at hsmooth
      exact hsmooth.elim

/-! ### Steps and runs -/

/-- **A step** without a fault. -/
lemma Delivering.step (h : Delivering w f s) (hI : AckInv w stored s) (hpeers : w.peers ≠ [])
    (hname : (fileName w.path).bind toStr = some f) (hsafe : safeName f = true)
    (hplain : Plain (ofStr f)) (hcollections : Function.Injective w.blobs.collectionHash)
    {a : TrafficAct μ C Hash} (ha : a.faultless s = true) (hs : w.step s a = some s') :
    Delivering w f s' := by
  cases a with
  | push move => exact h.pushed hI hpeers hname ha hs
  | handler l move =>
      have hstepped := handlerStep_stepped hs
      obtain ⟨hpush, htoPeer, helse⟩ := hstepped.elsewhere
      -- the moved handler is that of another connection, or it went on
      have hmine : ∀ n, s'.handler (.mine n) = s.handler (.mine n)
            ∧ s'.toSender (.mine n) = s.toSender (.mine n) ∨ Went w n move s s' := by
        intro n
        by_cases hl : .mine n = l
        · subst hl
          exact .inr (h.handled hI hsafe hplain hcollections ha hs)
        · exact .inl (helse (.mine n) hl)
      refine ⟨fun p => (h.ready p).tame hsafe (handlerStep_tame hI hs p),
        by rw [hpush]; exact h.push, fun g c results heq => ?_, fun n => ?_, fun n hidle => ?_,
        fun n offer pc r heq => ?_, fun n ack hack => ?_, fun n hn => ?_⟩
      · rw [htoPeer]
        exact h.waiting g c results (hpush ▸ heq)
      · obtain ⟨hsame, -⟩ | hwent := hmine n
        · rw [hsame]
          exact h.smooth n
        · exact hwent.smooth
      · obtain ⟨hsame, -⟩ | hwent := hmine n
        · exact h.dialled n (hsame ▸ hidle)
        · exact hwent.dialled
      · obtain ⟨hsame, -⟩ | hwent := hmine n
        · exact h.answered n offer pc r (hsame ▸ heq)
        · exact hwent.answered offer pc r heq
      · obtain ⟨-, hsent⟩ | hwent := hmine n
        · exact h.acks n ack (hsent ▸ hack)
        · exact hwent.acks ack hack
      · rw [hpush] at hn
        obtain ⟨offer, hcall⟩ := h.reached n hn
        exact ⟨offer, hstepped.reached hcall⟩

/-- How many moves the push and its handlers have left. -/
def rank (w : Pushing μ π C NodeId Sock Relay Hash) (s : Traffic μ π C Hash) : ℕ :=
  s.push.left w.peers.length + ∑ n ∈ Finset.range w.peers.length, (s.handler (.mine n)).left

omit [LinearOrder Sock] [LinearOrder Relay] [DecidableEq μ] [DecidableEq π] [DecidableEq Hash] in
lemma rank_init (store : π → FileSystem C) :
    rank w (Traffic.init store : Traffic μ π C Hash) = 13 * w.peers.length + 2 := by
  have hidle : ∀ n, ((Traffic.init store : Traffic μ π C Hash).handler (.mine n)).left = 9 :=
    fun n => rfl
  have hpush : (Traffic.init store : Traffic μ π C Hash).push.left w.peers.length
      = 4 * w.peers.length + 2 := rfl
  simp only [rank, hidle, hpush, Finset.sum_const, Finset.card_range, smul_eq_mul]
  omega

/-- Every move of the push or of one of its handlers brings the end nearer. -/
lemma Delivering.rank_step (h : Delivering w f s) (hI : AckInv w stored s)
    (hsafe : safeName f = true) (hplain : Plain (ofStr f))
    (hcollections : Function.Injective w.blobs.collectionHash) {notified : List π}
    (hloop : w.LoopInv notified s.push) {a : TrafficAct μ C Hash} (ha : a.faultless s = true)
    (hs : w.step s a = some s') : rank w s' + (if a.main then 1 else 0) ≤ rank w s := by
  cases a with
  | push move =>
      have hlt := (Pushing.pushStep_progress hs).left_lt hloop
      have hhandler : s'.handler = s.handler := by
        cases pushStep_stepped hs <;> rfl
      have hmain : (TrafficAct.push move : TrafficAct μ C Hash).main = true := rfl
      rw [rank, rank, hhandler, if_pos hmain]
      omega
  | handler l move =>
      obtain ⟨hpush, -, helse⟩ := (handlerStep_stepped hs).elsewhere
      cases l with
      | other m =>
          have hsame : ∀ n, s'.handler (.mine n) = s.handler (.mine n) :=
            fun n => (helse (.mine n) (by simp)).1
          have hmain : (TrafficAct.handler (.other m) move : TrafficAct μ C Hash).main = false :=
            rfl
          rw [hmain, rank, rank, hpush]
          simp only [hsame]
          exact le_rfl
      | mine n =>
          have hwent := h.handled hI hsafe hplain hcollections ha hs
          have hn := Finset.mem_range.mpr hwent.dialled
          have hrest : ∑ m ∈ (Finset.range w.peers.length).erase n, (s'.handler (.mine m)).left
              = ∑ m ∈ (Finset.range w.peers.length).erase n, (s.handler (.mine m)).left := by
            refine Finset.sum_congr rfl fun m hm => ?_
            rw [(helse (.mine m) (by simpa using Finset.ne_of_mem_erase hm)).1]
          have hleft := hwent.left
          rw [rank, rank, hpush, ← Finset.add_sum_erase _ _ hn, ← Finset.add_sum_erase _ _ hn,
            hrest]
          omega

/-- **A run** without a fault. -/
lemma delivering_run (hpeers : w.peers ≠ []) (hname : (fileName w.path).bind toStr = some f)
    (hsafe : safeName f = true) (hplain : Plain (ofStr f))
    (hcollections : Function.Injective w.blobs.collectionHash) {store : π → FileSystem C}
    (hready : ∀ p, Receptive w f p (store p)) {as : List (TrafficAct μ C Hash)}
    (hrun : exec w.step (Traffic.init store) as = some s)
    (hfaultless : ∀ t ∈ trace w.step (Traffic.init store) as, t.2.1.faultless t.1 = true)
    (hclear : ∀ t ∈ trace w.step (Traffic.init store) as, ¬ w.Collides t.1) :
    Delivering w f s ∧ as.countP TrafficAct.main + rank w s ≤ 13 * w.peers.length + 2 := by
  have hboth : AckInv w (fun _ _ => True) s ∧ Delivering w f s
      ∧ as.countP TrafficAct.main + rank w s ≤ 13 * w.peers.length + 2 := by
    refine history_invariant
      (I := fun done (t : Traffic μ π C Hash) => AckInv w (fun _ _ => True) t ∧ Delivering w f t
        ∧ done.countP TrafficAct.main + rank w t ≤ 13 * w.peers.length + 2)
      ⟨ackInv_init fun p => (hready p).root_dir, delivering_init hready, ?_⟩
      (fun done a t t' hpre hdone hI ha => ?_) hrun
    · rw [rank_init, List.countP_nil, zero_add]
    · obtain ⟨hI, h, hle⟩ := hI
      have hmem := mem_trace hpre hdone ha
      have hlt := h.rank_step hI hsafe hplain hcollections (Pushing.loopInv_run hdone)
        (a := a) (hfaultless _ hmem) ha
      refine ⟨ackInv_step ha (fun _ _ _ => trivial) (hclear _ hmem) hI,
        h.step hI hpeers hname hsafe hplain hcollections (hfaultless _ hmem) ha, ?_⟩
      rw [List.countP_append, List.countP_singleton]
      omega
  exact hboth.2

/-! ### Its end -/

omit [DecidableEq μ] [DecidableEq π] in
/-- A `pull` of an offer of the push can go on, or has a result. -/
lemma exists_pullStep {n : ℕ} {g : String} {c : C} {pc : PullPc C Hash}
    (hok : PullOk w.codec (w.root p) (w.call (.mine n) (w.offer g c))
      (fun _ d => Stands w.codec w.blobs (w.offer g c).hash d) fs pc)
    (hready : Receptive w f p fs) : pc.result.isSome = true ∨ ∃ move o,
      PullMove.failing move = false ∧ PullMove.aside move = false
        ∧ pullStep w.codec w.blobs (w.root p) (w.call (.mine n) (w.offer g c)) fs pc move
          = some o := by
  cases pc with
  | start => exact .inr ⟨.go, _, rfl, rfl, by rw [pullStep]⟩
  | fetching hash =>
      obtain ⟨-, hparse⟩ := hok.begun hash rfl
      have hprinted : w.codec.parseHash (w.call (.mine n) (w.offer g c)).hash
          = some (w.importHash g c) := w.codec.parse_printHash _
      have hhash : w.importHash g c = hash := Option.some.inj (hprinted.symm.trans hparse)
      exact .inr ⟨.fetched g [] c, (.exporting c, fs), rfl, rfl, if_pos hhash⟩
  | exporting d =>
      obtain ⟨fs', hfs⟩ : ∃ fs', pullWrite (w.root p) (w.call (.mine n) (w.offer g c)) d
          (.publishing d) fs = some (.publishing d, fs') := pullWrite_ok (hready.staged n)
      exact .inr ⟨.go, (.publishing d, fs'), rfl, rfl, by rw [pullStep, hfs]⟩
  | publishing d => exact .inr ⟨.go, _, rfl, rfl, by rw [pullStep]⟩
  | refused | done => exact .inl rfl

/-- A handler whose connection the sender waits for can go on, or has answered. -/
lemma Delivering.exists_handler (h : Delivering w f s) (hI : AckInv w stored s) {g : String} {c : C}
    {results : List (Except NotifyError Unit)}
    (hpush : s.push = .notifying g c .waiting results) :
    (s.handler (.mine results.length)).hasAnswered = true ∨
      ∃ a s', TrafficAct.main a = true ∧ a.faultless s = true ∧ w.step s a = some s' := by
  have hsending := h.push
  rw [hpush] at hsending
  have hsmooth := h.smooth results.length
  cases hpc : s.handler (.mine results.length) with
  | idle =>
      have hin : Pushing.incoming s (.mine results.length) = true := by
        rw [Pushing.incoming, hpush]
        exact decide_eq_true le_rfl
      exact .inr ⟨.handler (.mine results.length) .go, _, rfl, rfl, by
        rw [step_handler hpc, Pushing.handlerStep, if_pos hin]⟩
  | accepting =>
      have halpn : w.linkAlpn (.mine results.length) = syncAlpn := rfl
      exact .inr ⟨.handler (.mine results.length) .go, _, rfl, rfl, by
        rw [step_handler hpc, Pushing.handlerStep, if_neg (not_not.mpr halpn)]⟩
  | opening =>
      exact .inr ⟨.handler (.mine results.length) .go, _, rfl, rfl, by
        rw [step_handler hpc, Pushing.handlerStep]⟩
  | reading =>
      have hread : Pushing.readable s (w.offer g c) (.mine results.length) = true :=
        decide_eq_true (h.waiting g c results hpush)
      exact .inr ⟨.handler (.mine results.length) (.read (w.offer g c)), _, rfl, rfl, by
        rw [step_handler hpc, Pushing.handlerStep, if_pos hread]⟩
  | pulling offer pc =>
      obtain ⟨-, -, hlen⟩ := hsending
      have hp : w.peer (.mine results.length) = some w.peers[results.length] :=
        List.getElem?_eq_getElem hlen
      obtain ⟨g', c', -, rfl⟩ := hI.offered _ offer pc (by rw [hpc]; rfl)
      obtain hresult | ⟨move, o, hfailing, haside, ho⟩ :=
        exists_pullStep (hI.pulls _ _ _ _ hp hpc) (h.ready _)
      · rw [hpc] at hsmooth
        obtain ⟨r, hr⟩ := Option.isSome_iff_exists.mp hresult
        have hr : pc.returned = some r := PullPc.returned_eq.mpr ⟨hr, fun heq => by
          rw [heq] at hr
          exact hsmooth _ hr⟩
        exact .inr ⟨.handler (.mine results.length) .answer, _, rfl, rfl, by
          rw [step_handler hpc, Pushing.handlerStep, hr, Option.map_some]⟩
      · have hstep : (w.step s (.handler (.mine results.length) (.pull move))).isSome := by
          rw [step_handler hpc, Pushing.handlerStep, Pushing.pullMove, hp]
          simp only [ho, Option.map_some, Option.isSome_some]
        obtain ⟨s', hs'⟩ := Option.isSome_iff_exists.mp hstep
        exact .inr ⟨.handler (.mine results.length) (.pull move), s',
          by simpa [TrafficAct.main] using haside,
          by simpa [TrafficAct.faultless] using hfailing, hs'⟩
  | answered => exact .inl rfl
  | closed r =>
      rw [hpc] at hsmooth
      exact hsmooth.elim

/-- Until it is over, a push that has met no fault can go on without one. -/
lemma Delivering.exists_main [Inhabited C] (h : Delivering w f s) (hI : AckInv w stored s)
    (hpeers : w.peers ≠ []) (hname : (fileName w.path).bind toStr = some f) :
    (∃ c results, s.push = .finished f c results) ∨
      ∃ a s', TrafficAct.main a = true ∧ a.faultless s = true ∧ w.step s a = some s' := by
  have hsending := h.push
  cases hpc : s.push with
  | start =>
      refine .inr ⟨.push .go, { s with push := .preparing f }, rfl, rfl, ?_⟩
      rw [Pushing.step, hpc, Pushing.pushStep, if_neg hpeers, hname]
  | preparing g =>
      exact .inr ⟨.push (.imported default), _, rfl, rfl, by
        rw [Pushing.step, hpc, Pushing.pushStep]⟩
  | notifying g c call results =>
      cases call with
      | connecting | opening | writing =>
          exact .inr ⟨.push .go, _, rfl, rfl, by rw [Pushing.step, hpc, Pushing.pushStep]⟩
      | waiting =>
          cases hack : s.toSender (.mine results.length) with
          | none =>
              refine .inr ?_
              obtain hanswered | hmove := h.exists_handler hI hpc
              · -- the answer is lost
                have hlost : s.ackLost = true := by
                  simp only [Traffic.ackLost, hpc, hanswered, hack, Option.isNone_none,
                    Bool.and_self]
                exact ⟨.push (.fail .readAck), _, rfl, by simp [TrafficAct.faultless, hlost], by
                  rw [Pushing.step, hpc, Pushing.pushStep, if_pos (by rfl)]⟩
              · exact hmove
          | some ack =>
              exact .inr ⟨.push .go, _, rfl, rfl, by
                rw [Pushing.step, hpc, Pushing.pushStep, hack]⟩
  | finished g c results =>
      rw [hpc] at hsending
      obtain ⟨rfl, -⟩ := hsending
      exact .inl ⟨c, results, rfl⟩
  | stopped r =>
      rw [hpc] at hsending
      exact hsending.elim

/-- Where the `pull` of an offer of the push succeeded the peer held the file. -/
lemma AckInv.held {store : π → FileSystem C} {as : List (TrafficAct μ C Hash)}
    (hfiles : Function.Injective w.blobs.fileHash)
    (hcollections : Function.Injective w.blobs.collectionHash)
    (hI : AckInv w (fun l o => Sometime w.step (w.Stored l o) (Traffic.init store) as) s) {c : C}
    (hfile : s.push.file = some (f, c)) {n : ℕ} {o : SyncOffer}
    (ho : (s.handler (.mine n)).call = some (o, .done (.ok ()))) (hp : w.peers[n]? = some p) :
    Sometime w.step (fun t => entry (t.store p) (w.root p) (ofStr f) = some (.file c))
      (Traffic.init store) as := by
  obtain ⟨f', c', hfile', rfl⟩ := hI.offered n o _ ho
  obtain ⟨rfl, rfl⟩ := Prod.mk.inj (Option.some.inj (hfile.symm.trans hfile'))
  refine (hI.stored _ _ ho).imp ?_
  rintro t ⟨-, -, q, d, hq, ⟨hash, name, rest, hparse, hstands⟩, hentry⟩
  obtain rfl : p = q := Option.some.inj (hp.symm.trans hq)
  have hprinted : w.codec.parseHash (w.offer f c).hash = some (w.importHash f c) :=
    w.codec.parse_printHash _
  have hhash : w.importHash f c = hash := Option.some.inj (hprinted.symm.trans hparse)
  have hlist := hcollections (hstands.trans hhash.symm)
  obtain rfl := hfiles (congrArg Prod.snd (List.cons.inj hlist).1)
  exact hentry

omit [LinearOrder Sock] [LinearOrder Relay] [DecidableEq μ] [DecidableEq π] [DecidableEq Hash] in
lemma Sending.results {pc : PushPc C} (h : w.Sending f pc) : ∀ r ∈ pc.results, Taken r := by
  cases pc with
  | notifying g c call results => exact h.2.1
  | finished g c results => exact h.2.1
  | start | preparing | stopped => simp [PushPc.results]

/-- **A push that meets no fault delivers.**  Files and collections with one hash are the same, and
nothing else stands in the stores of the peers where the file or what a `pull` makes for it goes.
Then in every run in which the sender and the handlers of its connections meet no fault and no two
pulls of one peer export under one name, whatever other connections bring: every `notify_peer` that
has returned returned `Ok` or failed to read its answer, the moves of the push are bounded, and
either one of them is possible, or the push is over and every peer has held the file. -/
theorem push_delivers [Inhabited C] (w : Pushing μ π C NodeId Sock Relay Hash)
    (hpeers : w.peers ≠ []) (hname : (fileName w.path).bind toStr = some f)
    (hsafe : safeName f = true) (hplain : Plain (ofStr f))
    (hfiles : Function.Injective w.blobs.fileHash)
    (hcollections : Function.Injective w.blobs.collectionHash) {store : π → FileSystem C}
    (hready : ∀ p, Receptive w f p (store p)) {as : List (TrafficAct μ C Hash)}
    (hrun : exec w.step (Traffic.init store) as = some s)
    (hfaultless : ∀ t ∈ trace w.step (Traffic.init store) as, t.2.1.faultless t.1 = true)
    (hclear : ∀ t ∈ trace w.step (Traffic.init store) as, ¬ w.Collides t.1) :
    (∀ r ∈ s.push.results, Taken r) ∧ as.countP TrafficAct.main ≤ 13 * w.peers.length + 2
      ∧ ((∃ a s', TrafficAct.main a = true ∧ a.faultless s = true ∧ w.step s a = some s')
        ∨ ∃ c results, s.push = .finished f c results ∧ results.length = w.peers.length
          ∧ ∀ (n : ℕ) (p : π), w.peers[n]? = some p → Sometime w.step
            (fun t => entry (t.store p) (w.root p) (ofStr f) = some (.file c))
            (Traffic.init store) as) := by
  obtain ⟨h, hle⟩ := delivering_run hpeers hname hsafe hplain hcollections hready hrun hfaultless
    hclear
  have hI := ackInv_run (fun p => (hready p).root_dir) hclear hrun
  refine ⟨Sending.results h.push, by omega, ?_⟩
  obtain ⟨c, results, hpush⟩ | hmain := h.exists_main hI hpeers hname
  · have hsending := h.push
    rw [hpush] at hsending
    obtain ⟨-, -, hlen⟩ := hsending
    refine .inr ⟨c, results, hpush, hlen, fun n p hp => ?_⟩
    have hn : n < s.push.results.length := by
      rw [hpush]
      exact hlen ▸ (List.getElem?_eq_some_iff.mp hp).1
    obtain ⟨o, ho⟩ := h.reached n hn
    exact hI.held hfiles hcollections (by rw [hpush]; rfl) ho hp
  · exact .inl hmain

end Delivery

/-! ### A push whose answer is lost -/

/-- Two offers at once, and the connection goes before the answer is read. -/
def answerUnread : List (TrafficAct Unit (List UInt8) String) :=
  bothAtOnce.dropLast ++ [.handler (.mine 0) .close, .push (.fail .readAck)]

theorem answerUnread_delivers : ∃ s,
    exec (twoOffers 1).step (Traffic.init emptyStore) answerUnread = some s
    ∧ s.push.isOver = true
    ∧ (∀ r ∈ s.push.results, Taken r) ∧ answerUnread.countP TrafficAct.main ≤ 13 * 1 + 2
    ∧ ((∃ a s', TrafficAct.main a = true ∧ a.faultless s = true ∧ (twoOffers 1).step s a = some s')
      ∨ ∃ c results, s.push = .finished "foo" c results ∧ results.length = 1
        ∧ ∀ (n : ℕ) (p : Unit), (twoOffers 1).peers[n]? = some p → Sometime (twoOffers 1).step
          (fun t => entry (t.store p) ((twoOffers 1).root p) (ofStr "foo") = some (.file c))
          (Traffic.init emptyStore) answerUnread) := by
  have hrun : (exec (twoOffers 1).step (Traffic.init emptyStore) answerUnread).map
      (fun s => s.push.isOver) = some true := by
    decide +kernel
  obtain ⟨s, hs, hover⟩ := Option.map_eq_some_iff.mp hrun
  have hready : ∀ p, Receptive (twoOffers 1) "foo" p (emptyStore p) := by
    have hempty : ∀ m ∈ [ofStr "foo", recvName ⟨1, 1⟩, exportName ⟨1, 3⟩],
        entry (emptyStore ()) [ofStr "store"] m = none := by decide +kernel
    refine fun p => ⟨emptyStore_root p, fun hdir => ?_, fun n d hfile => ?_, fun n hdir => ?_⟩
    · exact absurd ((hempty (ofStr "foo") (by simp)).symm.trans hdir) (by simp)
    · exact absurd ((hempty (recvName ⟨1, 1⟩) (by simp)).symm.trans hfile) (by simp)
    · exact absurd ((hempty (exportName ⟨1, 3⟩) (by simp)).symm.trans hdir) (by simp)
  refine ⟨s, hs, hover, push_delivers _ (by simp [twoOffers]) (by decide) (by decide) (by decide)
    fileHash_textBlobs_injective collectionHash_textBlobs_injective hready hs
    (by decide +kernel) ?_⟩
  rintro t - ⟨l, l', p, hne, hp, hp', -, -, heq⟩
  rcases twoOffers_links hp with rfl | rfl <;> rcases twoOffers_links hp' with rfl | rfl
  · exact hne rfl
  · exact twoOffers_names heq
  · exact twoOffers_names heq.symm
  · exact hne rfl

end Dddatasync
