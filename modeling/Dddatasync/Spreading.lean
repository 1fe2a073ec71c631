import Dddatasync.Quiescence

/-!
Which versions of a file the devices of a user come to hold.

* `Known`: everything a device holds, pushes or offers is a known version of its name; `known_run`:
  a run adds the versions that users write, and no others.
* `NamesStay`: no visible name goes away; `synced_content_known`.
* `Underway`, `Spread`: a version that came to a device and is still there waits for its watcher, or
  every other device has got it or is about to.
* `Unhindered`: a watcher pushes the file when it comes to it, and its offers arrive;
  `update_spreads`, `one_version_everywhere`.
-/

namespace Dddatasync

open Fs OsString Runs

variable {ι C NodeId Sock Relay Hash : Type*} [HasLen C] [DecidableEq ι]
  {w : Service NodeId Sock Relay Hash C} {s s' : Net ι C} {f : String} {c : C}

/-! ### Where a content comes from -/

/-- Everything a device holds, pushes or offers is a known version of its name. -/
structure Known (known : String → C → Prop) (w : Service NodeId Sock Relay Hash C) (s : Net ι C) :
    Prop where
  files : ∀ i f c, Visible (ofStr f) →
    entry (s.device i).fs w.root (ofStr f) = some (.file c) → known f c
  jobs : ∀ i jb, (s.device i).job = some jb → known jb.name jb.content
  offers : ∀ o ∈ s.offers, known o.name o.content

variable {known : String → C → Prop}

omit [HasLen C] [DecidableEq ι] in
/-- Nothing new comes to any store. -/
lemma Known.of_same (h : Known known w s)
    (hsame : ∀ i n, Visible n →
      entry (s'.device i).fs w.root n = entry (s.device i).fs w.root n)
    (hjobs : ∀ i jb, (s'.device i).job = some jb → known jb.name jb.content)
    (hoffers : ∀ o ∈ s'.offers, known o.name o.content) : Known known w s' where
  files := fun i f c hv hc => h.files i f c hv ((hsame i _ hv).symm.trans hc)
  jobs := hjobs
  offers := hoffers

omit [HasLen C] in
/-- A known version comes to a device. -/
lemma Known.of_arrival {j : ι} (h : Known known w s) (harr : Arrival w s s' j f c)
    (hc : known f c) (hjobs : ∀ i, (s'.device i).job = (s.device i).job)
    (hoffers : ∀ o ∈ s'.offers, o ∈ s.offers) : Known known w s' where
  files := by
    intro i g d hv hd
    by_cases hi : i = j
    · subst hi
      by_cases hg : g = f
      · subst hg
        rw [harr.placed.entry_self] at hd
        cases hd
        exact hc
      · rw [harr.placed.entry_ne _ hv fun heq => hg (ofStr_injective heq)] at hd
        exact h.files i g d hv hd
    · rw [harr.others i hi] at hd
      exact h.files i g d hv hd
  jobs := fun i jb hjb => h.jobs i jb ((hjobs i).symm.trans hjb)
  offers := fun o ho => h.offers o (hoffers o ho)

/-- **A move** brings no new version. -/
lemma Known.stepped {m : Move ι C} (hok : Ok w s) (h : Known known w s)
    (hstep : Stepped w s m s') : Known known w s' := by
  cases hstep with
  | @handled i answer g rest hjob hqueue hanswer =>
      refine h.of_same (fun k n _ => by rw [Net.handled_fs]) (fun k jb hjb => ?_) h.offers
      by_cases hk : k = i
      · subst hk
        rw [Net.handled_self] at hjb
        obtain ⟨d, ps, hp, -, -, rfl⟩ := (pushes_eq_some_iff (hok.root k)
          (hok.plain k g (by simp [hqueue]))).mp hjb
        exact h.files k g d (visible_ofStr.mpr hp.shown) hp.file
      · rw [Net.handled_ne w answer g rest s hk] at hjb
        exact h.jobs k jb hjb
  | @notified i p g d ps hjob =>
      have hknown := h.jobs i _ hjob
      refine h.of_same (fun k n _ => by rw [Net.notified_fs]) (fun k jb hjb => ?_) fun o ho => ?_
      · by_cases hk : k = i
        · subst hk
          rw [Net.notified_self] at hjb
          cases hjb
          exact hknown
        · rw [Net.notified_ne p g d ps s hk] at hjb
          exact h.jobs k jb hjb
      · obtain ho | ho := List.mem_append.mp ho
        · exact h.offers o ho
        · rw [List.mem_singleton.mp ho]
          exact hknown
  | @finished i g d hjob =>
      refine h.of_same (fun k n _ => by rw [Net.finished_fs]) (fun k jb hjb => ?_) h.offers
      by_cases hk : k = i
      · subst hk
        rw [Net.finished_self] at hjb
        cases hjb
      · rw [Net.finished_ne s hk] at hjb
        exact h.jobs k jb hjb
  | @landed n o io fs' hoffer harr hplaced =>
      exact h.of_arrival (arrival_landed hplaced) (h.offers o (List.mem_of_getElem? hoffer))
        (fun k => Net.landed_job n o fs' s k) fun _ ho => List.mem_of_mem_eraseIdx ho
  | @lost n o io fs' hoffer hno hsame =>
      refine h.of_same ((quiet_lost hsame).same · |>.entry_eq) (fun k jb hjb => ?_)
        fun o' ho => h.offers o' (List.mem_of_mem_eraseIdx ho)
      rw [Net.lost_job] at hjb
      exact h.jobs k jb hjb

/-- **An action** brings the version that it writes, and no other. -/
lemma Known.perform [Fintype ι] {a : Action ι C} (hok : Ok w s) (h : Known known w s)
    (ha : ∀ i f c, a = .write i f c → known f c) : Known known w (Net.perform w s a) := by
  cases a with
  | move m =>
      rw [Net.perform]
      cases hs : Net.step w s m with
      | none => exact h
      | some s' => exact h.stepped hok (stepped_of_step hok hs)
  | write i f c =>
      rw [Net.perform]
      cases hs : Net.write w i f c s with
      | none => exact h
      | some s' =>
          obtain ⟨fs', -, rfl, hplaced⟩ := write_action_cases hs
          refine h.of_arrival (arrival_written hplaced) (ha i f c rfl) (fun k => ?_)
            fun _ ho => ho
          by_cases hk : k = i
          · subst hk
            rw [Option.getD_some, Net.written_self]
          · rw [Option.getD_some, Net.written_ne f c fs' s hk]

/-- A run in which users write known versions only. -/
lemma known_run [Fintype ι] (hok : Ok w s) (h : Known known w s) {as : List (Action ι C)}
    (has : ∀ i f c, .write i f c ∈ as → known f c) :
    Known known w (as.foldl (Net.perform w) s) := by
  have hboth : Throughout (Net.perform w) (fun t => Ok w t ∧ Known known w t) s as := by
    refine throughout_of_step (L := fun _ a => a ∈ as) (fun t a ha ht => ?_)
      (fun done a hpre => hpre.subset (by simp)) ⟨hok, h⟩
    exact ⟨perform_ok a ht.1, ht.2.perform ht.1 fun i f c heq => has i f c (heq ▸ ha)⟩
  exact (hboth as List.prefix_rfl).2

/-! ### Names stay -/

/-- No file of a device has gone away. -/
def NamesStay (w : Service NodeId Sock Relay Hash C) (s s' : Net ι C) : Prop :=
  ∀ i n, Visible n → (∃ c, entry (s.device i).fs w.root n = some (.file c)) →
    ∃ c, entry (s'.device i).fs w.root n = some (.file c)

omit [HasLen C] in
lemma namesStay_arrival {j : ι} (harr : Arrival w s s' j f c) : NamesStay w s s' := by
  intro i n hv hn
  by_cases hi : i = j
  · subst hi
    by_cases hnf : n = ofStr f
    · subst hnf
      exact ⟨c, harr.placed.entry_self⟩
    · rw [harr.placed.entry_ne n hv hnf]
      exact hn
  · rw [harr.others i hi]
    exact hn

lemma namesStay_perform [Fintype ι] (hok : Ok w s) (a : Action ι C) :
    NamesStay w s (Net.perform w s a) := by
  obtain ⟨hquiet, -⟩ | ⟨n, io, o, -, -, -, harr⟩ | ⟨i, g, d, -, harr⟩ := perform_cases hok a
  · intro i n hv hn
    rw [(hquiet.same i).entry_eq n hv]
    exact hn
  · exact namesStay_arrival harr
  · exact namesStay_arrival harr

lemma namesStay_run [Fintype ι] (hok : Ok w s) (as : List (Action ι C)) :
    NamesStay w s (as.foldl (Net.perform w) s) := by
  have hboth : Throughout (Net.perform w) (fun t => Ok w t ∧ NamesStay w s t) s as := by
    refine throughout_of_step (L := fun _ _ => True) (fun t a _ ht => ?_)
      (along_of_forall fun _ _ _ => trivial) ⟨hok, fun _ _ _ hn => hn⟩
    exact ⟨perform_ok a ht.1, fun i n hv hn => namesStay_perform ht.1 a i n hv (ht.2 i n hv hn)⟩
  exact (hboth as List.prefix_rfl).2

/-- The version is in a store, in a push or in an offer. -/
def Present (w : Service NodeId Sock Relay Hash C) (s : Net ι C) (f : String) (c : C) : Prop :=
  (∃ i, entry (s.device i).fs w.root (ofStr f) = some (.file c))
    ∨ (∃ i ps, (s.device i).job = some ⟨f, c, ps⟩) ∨ ∃ j, ⟨j, f, c⟩ ∈ s.offers

/-- Everything was there at the start or is written by a user. -/
lemma known_origin [Fintype ι] (hok : Ok w s) (as : List (Action ι C)) :
    Known (fun f c => Present w s f c ∨ ∃ i, .write i f c ∈ as) w
      (as.foldl (Net.perform w) s) := by
  refine known_run hok ⟨fun i f c _ hc => .inl (.inl ⟨i, hc⟩), fun i jb hjb => ?_, fun o ho => ?_⟩
    fun i f c ha => .inr ⟨i, ha⟩
  · exact .inl (.inr (.inl ⟨i, jb.peers, hjb⟩))
  · exact .inl (.inr (.inr ⟨o.target, ho⟩))

/-- **Syncing makes nothing up and loses no name.**  In every run of any devices, whatever fails,
the content under a visible name is one that some user wrote under that very name, or one that was
there under it at the start; and no device ever loses a file.  What a slow write shows on its way
is written too, and the pulls of one device do not overlap: two that export under one name can put
the content of one file under the name of the other. -/
theorem synced_content_known [Fintype ι] (hok : Ok w s) (as : List (Action ι C)) :
    Known (fun f c => Present w s f c ∨ ∃ i, .write i f c ∈ as) w (as.foldl (Net.perform w) s)
      ∧ NamesStay w s (as.foldl (Net.perform w) s) :=
  ⟨known_origin hok as, namesStay_run hok as⟩

/-! ### Where a version goes -/

/-- The version `f`, `c` of the device `i` has come to `j`, or it is on its way there. -/
def Underway (s : Net ι C) (i j : ι) (f : String) (c : C) : Prop :=
  (∃ ps, (s.device i).job = some ⟨f, c, ps⟩ ∧ j ∈ ps) ∨ ⟨j, f, c⟩ ∈ s.offers
    ∨ (j, f, c) ∈ s.log

/-- A version that came to a device and is still there waits for its watcher, or it reaches every
other device. -/
def Spread (w : Service NodeId Sock Relay Hash C) (s : Net ι C) (f : String) : Prop :=
  ∀ i c, entry (s.device i).fs w.root (ofStr f) = some (.file c) → (i, f, c) ∈ s.log →
    f ∈ (s.device i).queue ∨ ∀ j, j ≠ i → Underway s i j f c

/-- A watcher that comes to an event for `f`, while the file is there, knows its peers and gets past
its checks; an offer of `f` that is delivered arrives. -/
def Unhindered (w : Service NodeId Sock Relay Hash C) (f : String) (s : Net ι C) :
    Action ι C → Prop
  | .move (.handle i answer) => (s.device i).job = none → Answers i answer →
      ∀ rest c, (s.device i).queue = f :: rest →
      entry (s.device i).fs w.root (ofStr f) = some (.file c) →
      answer.isSome = true ∧ Pushable w.root (s.device i).fs f c
  | .move (.deliver n io) => ∀ o, s.offers[n]? = some o → o.name = f → Arrives w s o io
  | _ => True

omit [HasLen C] [DecidableEq ι] in
/-- Nothing gets lost on the way, and nothing new waits to be spread. -/
lemma Spread.of_same (h : Spread w s f)
    (hsame : ∀ i, entry (s'.device i).fs w.root (ofStr f) = entry (s.device i).fs w.root (ofStr f))
    (hlog : s'.log = s.log) (hqueue : ∀ i, f ∈ (s.device i).queue → f ∈ (s'.device i).queue)
    (hreach : ∀ i j c, Underway s i j f c → Underway s' i j f c) : Spread w s' f := by
  intro i c hc hmem
  rw [hsame] at hc
  rw [hlog] at hmem
  obtain hq | hr := h i c hc hmem
  · exact .inl (hqueue i hq)
  · exact .inr fun j hj => hreach i j c (hr j hj)

omit [HasLen C] in
/-- A version comes to a device, and waits there. -/
lemma Spread.of_arrival {k : ι} {g : String} {d : C} (h : Spread w s f) (hv : Visible (ofStr f))
    (harr : Arrival w s s' k g d) (hwaits : g ∈ (s'.device k).queue)
    (hqueue : ∀ e ∈ (s.device k).queue, e ∈ (s'.device k).queue)
    (hjobs : ∀ i, (s'.device i).job = (s.device i).job)
    (hoffers : ∀ o ∈ s.offers, o ∈ s'.offers ∨ o = ⟨k, g, d⟩) : Spread w s' f := by
  intro i c hc hmem
  by_cases hnew : i = k ∧ f = g
  · obtain ⟨rfl, rfl⟩ := hnew
    exact .inl hwaits
  -- this version of `f` was there before
  have hold : entry (s'.device i).fs w.root (ofStr f)
      = entry (s.device i).fs w.root (ofStr f) := by
    by_cases hi : i = k
    · subst hi
      exact harr.placed.entry_ne _ hv fun heq => hnew ⟨rfl, ofStr_injective heq⟩
    · rw [harr.others i hi]
  have hlogged : (i, f, c) ∈ s.log := by
    rw [harr.log] at hmem
    refine (List.mem_cons.mp hmem).resolve_left fun heq => hnew ?_
    cases heq
    exact ⟨rfl, rfl⟩
  obtain hq | hr := h i c (hold.symm.trans hc) hlogged
  · left
    by_cases hi : i = k
    · subst hi
      exact hqueue f hq
    · rw [harr.others i hi]
      exact hq
  · refine .inr fun j hj => ?_
    obtain ⟨ps, hjob, hjps⟩ | hoffer | hgot := hr j hj
    · exact .inl ⟨ps, (hjobs i).trans hjob, hjps⟩
    · obtain hleft | heq := hoffers _ hoffer
      · exact .inr (.inl hleft)
      · cases heq
        exact .inr (.inr (by rw [harr.log]; exact List.mem_cons_self))
    · exact .inr (.inr (by rw [harr.log]; exact List.mem_cons_of_mem _ hgot))

omit [HasLen C] [DecidableEq ι] in
/-- What is not the `n`-th element stays when it goes. -/
lemma mem_eraseIdx_or {o o' : Offer ι C} {l : List (Offer ι C)} {n : ℕ} (hn : l[n]? = some o)
    (ho' : o' ∈ l) : o' ∈ l.eraseIdx n ∨ o' = o := by
  obtain ⟨hlt, rfl⟩ := List.getElem?_eq_some_iff.mp hn
  have hperm := List.getElem_cons_eraseIdx_perm hlt
  obtain heq | hmem := List.mem_cons.mp (hperm.mem_iff.mpr ho')
  · exact .inr heq
  · exact .inl hmem

/-- **A move** that nothing hinders. -/
lemma Spread.stepped {m : Move ι C} (hok : Ok w s) (hv : Visible (ofStr f)) (h : Spread w s f)
    (hfree : Unhindered w f s (.move m)) (hstep : Stepped w s m s') : Spread w s' f := by
  cases hstep with
  | @handled i answer g rest hjob hqueue hanswer =>
      intro k c hc hmem
      rw [Net.handled_fs] at hc
      by_cases hk : k = i
      · subst hk
        rw [Net.handled_self]
        by_cases hg : g = f
        · subst hg
          -- the watcher has come to the file: its push is for all others
          obtain ⟨hsome, hp⟩ := hfree hjob hanswer rest c hqueue hc
          obtain ⟨ps, rfl⟩ := Option.isSome_iff_exists.mp hsome
          refine .inr fun j hj => .inl ⟨ps, ?_, ((hanswer ps rfl).2 j).mpr hj⟩
          rw [Net.handled_self]
          refine (pushes_eq_some_iff (hok.root k) (hok.plain k g (by simp [hqueue]))).mpr ?_
          exact ⟨c, ps, hp, rfl, List.ne_nil_of_mem (((hanswer ps rfl).2 j).mpr hj), rfl⟩
        · obtain hq | hr := h k c hc hmem
          · rw [hqueue] at hq
            exact .inl ((List.mem_cons.mp hq).resolve_left (Ne.symm hg))
          · refine .inr fun j hj => .inr ((hr j hj).resolve_left ?_)
            rintro ⟨ps, hps, -⟩
            rw [hjob] at hps
            cases hps
      · simp only [Underway, Net.handled_ne w answer g rest s hk]
        exact h k c hc hmem
  | @notified i p g d ps hjob =>
      refine h.of_same (fun k => by rw [Net.notified_fs]) rfl
        (fun k hq => by rwa [Net.notified_queue]) fun k j c hr => ?_
      obtain ⟨qs, hqs, hj⟩ | hoffer | hgot := hr
      · by_cases hk : k = i
        · subst hk
          cases hjob.symm.trans hqs
          obtain rfl | hj := List.mem_cons.mp hj
          · exact .inr (.inl (List.mem_append_right _ (List.mem_singleton_self _)))
          · exact .inl ⟨ps, by rw [Net.notified_self], hj⟩
        · exact .inl ⟨qs, by rwa [Net.notified_ne p g d ps s hk], hj⟩
      · exact .inr (.inl (List.mem_append_left _ hoffer))
      · exact .inr (.inr hgot)
  | @finished i g d hjob =>
      refine h.of_same (fun k => by rw [Net.finished_fs]) rfl
        (fun k hq => by rwa [Net.finished_queue]) fun k j c hr => ?_
      obtain ⟨qs, hqs, hj⟩ | hrest := hr
      · by_cases hk : k = i
        · subst hk
          cases hjob.symm.trans hqs
          exact absurd hj List.not_mem_nil
        · exact .inl ⟨qs, by rwa [Net.finished_ne s hk], hj⟩
      · exact .inr hrest
  | @landed n o io fs' hoffer harr hplaced =>
      refine h.of_arrival hv (arrival_landed hplaced) ?_ (fun e he => ?_)
        (fun k => Net.landed_job n o fs' s k) fun o' ho' => mem_eraseIdx_or hoffer ho'
      · rw [Net.landed_self]
        exact List.mem_append_right _ (List.mem_singleton_self _)
      · rw [Net.landed_self]
        exact List.mem_append_left _ he
  | @lost n o io fs' hoffer hno hsame =>
      refine h.of_same (fun k => ((quiet_lost hsame).same k).entry_eq _ hv) rfl
        (fun k hq => by rwa [Net.lost_queue]) fun k j c hr => ?_
      obtain ⟨qs, hqs, hj⟩ | ho' | hgot := hr
      · exact .inl ⟨qs, by rwa [Net.lost_job], hj⟩
      · obtain hleft | heq := mem_eraseIdx_or hoffer ho'
        · exact .inr (.inl hleft)
        · exact absurd (hfree o hoffer (by rw [← heq])) hno
      · exact .inr (.inr hgot)

/-- **An action** that nothing hinders. -/
lemma Spread.perform [Fintype ι] {a : Action ι C} (hok : Ok w s) (hv : Visible (ofStr f))
    (h : Spread w s f) (hfree : Unhindered w f s a) : Spread w (Net.perform w s a) f := by
  cases a with
  | move m =>
      rw [Net.perform]
      cases hs : Net.step w s m with
      | none => exact h
      | some s' => exact h.stepped hok hv hfree (stepped_of_step hok hs)
  | write i g d =>
      rw [Net.perform]
      cases hs : Net.write w i g d s with
      | none => exact h
      | some s' =>
          obtain ⟨fs', -, rfl, hplaced⟩ := write_action_cases hs
          refine h.of_arrival hv (arrival_written hplaced) ?_ (fun e he => ?_) (fun k => ?_)
            fun o ho => .inl ho
          · rw [Option.getD_some, Net.written_self]
            exact List.mem_append_right _ (List.mem_singleton_self _)
          · rw [Option.getD_some, Net.written_self]
            exact List.mem_append_left _ he
          · by_cases hk : k = i
            · subst hk
              rw [Option.getD_some, Net.written_self]
            · rw [Option.getD_some, Net.written_ne g d fs' s hk]

/-- A run that nothing hinders. -/
lemma spread_run [Fintype ι] (hok : Ok w s) (hlog : s.log = []) (hv : Visible (ofStr f))
    {as : List (Action ι C)} (hfree : Along (Net.perform w) (Unhindered w f) s as) :
    Spread w (as.foldl (Net.perform w) s) f := by
  have h0 : Spread w s f := by
    intro i c _ hmem
    rw [hlog] at hmem
    exact absurd hmem List.not_mem_nil
  have hboth : Throughout (Net.perform w) (fun t => Ok w t ∧ Spread w t f) s as :=
    throughout_of_step (fun t a ha ht => ⟨perform_ok a ht.1, ht.2.perform ht.1 hv ha⟩) hfree
      ⟨hok, h0⟩
  exact (hboth as List.prefix_rfl).2

/-- **No update gets lost on its way.**  In every run of any devices and any writes in which nothing
hinders the spreading of `f`, whatever happens to other files: a version that came to a device and
is still there waits for its watcher, or every other device has got it, is sent it, or is among the
peers the device is pushing it to. -/
theorem update_spreads [Fintype ι] (hok : Ok w s) (hlog : s.log = []) (hv : Visible (ofStr f))
    {as : List (Action ι C)} (hfree : Along (Net.perform w) (Unhindered w f) s as) :
    Spread w (as.foldl (Net.perform w) s) f :=
  spread_run hok hlog hv hfree

/-! ### One version everywhere -/

/-- Every copy of `f` has come to its device in this run, and has not gone away. -/
structure Logged (w : Service NodeId Sock Relay Hash C) (f : String) (s : Net ι C) : Prop where
  held : ∀ i c, entry (s.device i).fs w.root (ofStr f) = some (.file c) → (i, f, c) ∈ s.log
  stays : ∀ i c, (i, f, c) ∈ s.log →
    ∃ d, entry (s.device i).fs w.root (ofStr f) = some (.file d)

omit [HasLen C] in
lemma Logged.of_arrival {k : ι} {g : String} {d : C} (h : Logged w f s) (hv : Visible (ofStr f))
    (harr : Arrival w s s' k g d) : Logged w f s' := by
  have hkept : ∀ i, ¬ (i = k ∧ f = g) → entry (s'.device i).fs w.root (ofStr f)
      = entry (s.device i).fs w.root (ofStr f) := by
    intro i hnew
    by_cases hi : i = k
    · subst hi
      exact harr.placed.entry_ne _ hv fun heq => hnew ⟨rfl, ofStr_injective heq⟩
    · rw [harr.others i hi]
  constructor
  · intro i c hc
    rw [harr.log]
    by_cases hnew : i = k ∧ f = g
    · obtain ⟨rfl, rfl⟩ := hnew
      rw [harr.placed.entry_self] at hc
      cases hc
      exact List.mem_cons_self
    · rw [hkept i hnew] at hc
      exact List.mem_cons_of_mem _ (h.held i c hc)
  · intro i c hmem
    by_cases hnew : i = k ∧ f = g
    · obtain ⟨rfl, rfl⟩ := hnew
      exact ⟨d, harr.placed.entry_self⟩
    · rw [hkept i hnew]
      rw [harr.log] at hmem
      refine h.stays i c ((List.mem_cons.mp hmem).resolve_left fun heq => hnew ?_)
      cases heq
      exact ⟨rfl, rfl⟩

lemma Logged.perform [Fintype ι] (hok : Ok w s) (hv : Visible (ofStr f)) (h : Logged w f s)
    (a : Action ι C) : Logged w f (Net.perform w s a) := by
  obtain ⟨hquiet, -⟩ | ⟨n, io, o, -, -, -, harr⟩ | ⟨i, g, d, -, harr⟩ := perform_cases hok a
  · have hsame := fun i => (hquiet.same i).entry_eq (ofStr f) hv
    constructor
    · intro i c hc
      rw [hquiet.log]
      exact h.held i c ((hsame i).symm.trans hc)
    · intro i c hmem
      rw [hquiet.log] at hmem
      rw [hsame]
      exact h.stays i c hmem
  · exact h.of_arrival hv harr
  · exact h.of_arrival hv harr

lemma logged_run [Fintype ι] (hok : Ok w s) (hv : Visible (ofStr f)) (h : Logged w f s)
    (as : List (Action ι C)) : Logged w f (as.foldl (Net.perform w) s) := by
  have hboth : Throughout (Net.perform w) (fun t => Ok w t ∧ Logged w f t) s as :=
    throughout_of_step (L := fun _ _ => True)
      (fun t a _ ht => ⟨perform_ok a ht.1, ht.2.perform ht.1 hv a⟩)
      (along_of_forall fun _ _ _ => trivial) ⟨hok, h⟩
  exact (hboth as List.prefix_rfl).2

/-- The device `i` is done with `f`: no event of it waits, it is not pushing it, and no offer of it
is in flight. -/
structure DoneWith (s : Net ι C) (i : ι) (f : String) : Prop where
  queue : f ∉ (s.device i).queue
  job : ∀ jb, (s.device i).job = some jb → jb.name ≠ f
  offers : ∀ o ∈ s.offers, o.name ≠ f

/-- **One version reaches everybody.**  A file that nobody had is written with one content only, by
any users any number of times, each time in one piece (a file that grows in place shows other
contents first), and nothing hinders its spreading.  Then as soon as one device that has it is done
with it, every device holds that content. -/
theorem one_version_everywhere [Fintype ι] (hok : Ok w s) (hlog : s.log = [])
    (hv : Visible (ofStr f)) (hnew : ∀ d, ¬ Present w s f d) {as : List (Action ι C)}
    (hone : ∀ i d, .write i f d ∈ as → d = c)
    (hfree : Along (Net.perform w) (Unhindered w f) s as) {i : ι}
    (hhas : ∃ d, entry ((as.foldl (Net.perform w) s).device i).fs w.root (ofStr f) = some (.file d))
    (hdone : DoneWith (as.foldl (Net.perform w) s) i f) (j : ι) :
    entry ((as.foldl (Net.perform w) s).device j).fs w.root (ofStr f) = some (.file c) := by
  have hknown := known_origin hok as
  have hlogged : Logged w f (as.foldl (Net.perform w) s) := by
    refine logged_run hok hv ⟨fun i d hd => absurd (.inl ⟨i, hd⟩) (hnew d), fun i d hmem => ?_⟩ as
    rw [hlog] at hmem
    exact absurd hmem List.not_mem_nil
  have honly : ∀ k d, entry ((as.foldl (Net.perform w) s).device k).fs w.root (ofStr f)
      = some (.file d) → d = c := by
    intro k d hd
    obtain hpresent | ⟨k', hwrite⟩ := hknown.files k f d hv hd
    · exact absurd hpresent (hnew d)
    · exact hone k' d hwrite
  obtain ⟨d, hd⟩ := hhas
  obtain ⟨e, he⟩ : ∃ e, entry ((as.foldl (Net.perform w) s).device j).fs w.root (ofStr f)
      = some (.file e) := by
    by_cases hj : j = i
    · subst hj
      exact ⟨d, hd⟩
    · obtain hq | hr := spread_run hok hlog hv hfree i d hd (hlogged.held i d hd)
      · exact absurd hq hdone.queue
      · obtain ⟨ps, hjob, -⟩ | hoffer | hgot := hr j hj
        · exact absurd rfl (hdone.job _ hjob)
        · exact absurd rfl (hdone.offers _ hoffer)
        · exact hlogged.stays j d hgot
  rw [he, honly j e he]

/-! ### Two empty stores -/

/-- A delivery that shows in the log has arrived. -/
lemma arrives_of_log [Fintype ι] (hok : Ok w s) {n : ℕ} {io : Pulling C} {o : Offer ι C}
    (hoffer : s.offers[n]? = some o)
    (hlog : (Net.perform w s (.move (.deliver n io))).log ≠ s.log) : Arrives w s o io := by
  obtain ⟨hquiet, -⟩ | ⟨n', io', o', heq, hoffer', harr, -⟩ | ⟨i, g, d, heq, -⟩ :=
    perform_cases hok (.move (.deliver n io))
  · exact absurd hquiet.log hlog
  · obtain ⟨rfl, rfl⟩ := Move.deliver.inj (Action.move.inj heq)
    obtain rfl := Option.some.inj (hoffer.symm.trans hoffer')
    exact harr
  · cases heq

/-- Nothing hinders the one write of the laptop. -/
lemma oneWay_unhindered : Along (Net.perform (storeService bytesText))
    (Unhindered (storeService bytesText) "a") (emptyPair (List UInt8)) oneWay := by
  refine along_cons.mpr ⟨trivial, along_cons.mpr ⟨fun _ _ rest c _ hc => ?_,
    along_cons.mpr ⟨trivial, along_cons.mpr ⟨fun o hoffer _ => ?_,
      along_cons.mpr ⟨trivial, along_nil⟩⟩⟩⟩⟩
  · have hone : some (Node.file [1]) = some (.file c) := Eq.trans (by decide) hc
    obtain rfl := Node.file.inj (Option.some.inj hone)
    exact ⟨rfl, hc, by decide, by decide, by decide⟩
  · exact arrives_of_log (perform_ok _ (perform_ok _ (perform_ok _ (emptyPair_ok bytesText))))
      hoffer (by decide)

theorem oneWay_known : Known (fun f c => Present (storeService bytesText)
      (emptyPair (List UInt8)) f c ∨ ∃ i, .write i f c ∈ oneWay) (storeService bytesText)
      (oneWay.foldl (Net.perform (storeService bytesText)) (emptyPair _))
    ∧ NamesStay (storeService bytesText) (emptyPair _)
      (oneWay.foldl (Net.perform (storeService bytesText)) (emptyPair _)) :=
  synced_content_known (emptyPair_ok bytesText) oneWay

theorem oneWay_spreads : Spread (storeService bytesText)
    (oneWay.foldl (Net.perform (storeService bytesText)) (emptyPair (List UInt8))) "a" :=
  update_spreads (emptyPair_ok bytesText) rfl (by decide) oneWay_unhindered

theorem oneWay_everywhere :
    entry ((oneWay.foldl (Net.perform (storeService bytesText)) (emptyPair _)).device .phone).fs
      [ofStr "store"] (ofStr "a") = some (.file [1]) := by
  refine one_version_everywhere (emptyPair_ok bytesText) rfl (by decide) ?_ ?_ oneWay_unhindered
    (i := .laptop) ⟨[1], by decide⟩ ⟨by decide, ?_, ?_⟩ .phone
  · rintro d (⟨i, hd⟩ | ⟨i, ps, hjob⟩ | ⟨j, hoffer⟩)
    · exact absurd ((entry_emptyPair i _).symm.trans hd) (by simp)
    · cases hjob
    · exact absurd hoffer List.not_mem_nil
  · intro i d hwrite
    simp only [oneWay, List.mem_cons, Action.write.injEq, reduceCtorEq, List.not_mem_nil, or_false,
      true_and] at hwrite
    exact hwrite.2
  · have hnone : ((oneWay.foldl (Net.perform (storeService bytesText))
        (emptyPair (List UInt8))).device .laptop).job.isNone := by decide
    intro jb hjb
    rw [hjb] at hnone
    cases hnone
  · have hnil : (oneWay.foldl (Net.perform (storeService bytesText))
        (emptyPair (List UInt8))).offers.isEmpty := by decide
    intro o ho
    rw [List.isEmpty_iff.mp hnil] at ho
    exact absurd ho List.not_mem_nil

end Dddatasync
