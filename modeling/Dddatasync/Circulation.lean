import Dddatasync.NetworkMoves

/-!
Versions on the move between the devices.

* `PassesOn`: a device takes an offer of a version, and its watcher passes it on;
  `PassesOn.of_placed`: no landing makes a device start to do so.
* `Circulates`: a version is on the move, and two devices pass it on.
* `Stepped.takes`, `circulates_of_stepped`: no move brings a version into circulation.
* `exists_step_of_circulates`: a version that circulates can be kept in circulation.
-/

namespace Dddatasync

open Fs OsString Runs

variable {ι C NodeId Sock Relay Hash : Type*} [HasLen C]

/-! ### Passing a version on -/

/-- The device takes an offer of `f` with content `c`, and afterwards the limit check of its
watcher lets `f` through. -/
structure PassesOn (root : AbsPath) (fs : FileSystem C) (f : String) (c : C) : Prop where
  plain : Plain (ofStr f)
  safe : safeName f = true
  no_dir : entry fs root (ofStr f) ≠ some .dir
  size : HasLen.len c ≤ maxFileBytes
  room : fileCount root fs + 1 < maxFiles
    ∨ Listed root fs (ofStr f) ∧ fileCount root fs < maxFiles

section Stores

variable {root : AbsPath} {fs fs' : FileSystem C} {f g : String} {c d : C}

lemma PassesOn.visible (h : PassesOn root fs f c) : Visible (ofStr f) :=
  (safeName_visible h.safe).2

lemma PassesOn.of_sameVisible (hsame : SameVisible root fs fs') (h : PassesOn root fs' f c) :
    PassesOn root fs f c where
  plain := h.plain
  safe := h.safe
  no_dir := by
    rw [← hsame.entry_eq _ h.visible]
    exact h.no_dir
  size := h.size
  room := by
    have hroom := h.room
    rwa [hsame.fileCount_eq, Listed, hsame.entry_eq _ h.visible] at hroom

/-- A landing can take a device out of the circulation of a version, never bring it in. -/
lemma PassesOn.of_placed (hg : safeName g = true) (hdir : entry fs root (ofStr g) ≠ some .dir)
    (hplaced : Placed root (ofStr g) d fs fs') (h : PassesOn root fs' f c) :
    PassesOn root fs f c where
  plain := h.plain
  safe := h.safe
  no_dir := by
    by_cases hfg : ofStr f = ofStr g
    · rw [hfg]
      exact hdir
    · rw [← hplaced.entry_ne _ h.visible hfg]
      exact h.no_dir
  size := h.size
  room := by
    have hcount := fileCount_placed hplaced (safeName_visible hg).2
    rcases h.room with hroom | ⟨⟨hv, e, he⟩, hroom⟩
    · left
      omega
    by_cases hfg : ofStr f = ofStr g
    · rw [hfg]
      rcases hcount with ⟨hl, hc⟩ | ⟨-, hc⟩
      · exact .inr ⟨hl, by omega⟩
      · exact .inl (by omega)
    · rw [hplaced.entry_ne _ hv hfg] at he
      exact .inr ⟨⟨hv, e, he⟩, by omega⟩

/-- A version that landed can be passed on if the device takes part in its circulation. -/
lemma PassesOn.placed (hplaced : Placed root (ofStr f) d fs fs') (h : PassesOn root fs f c) :
    PassesOn root fs' f c where
  plain := h.plain
  safe := h.safe
  no_dir := by
    rw [hplaced.entry_self]
    simp
  size := h.size
  room := by
    have hl' : Listed root fs' (ofStr f) := ⟨h.visible, d, hplaced.entry_self⟩
    rcases fileCount_placed hplaced h.visible with ⟨-, hc⟩ | ⟨hl, hc⟩
    · exact .inr ⟨hl', by rcases h.room with hr | ⟨-, hr⟩ <;> omega⟩
    · exact .inr ⟨hl', by rcases h.room with hr | ⟨hr, -⟩; exacts [by omega, absurd hr hl]⟩

/-- A watcher that pushes a version under a safe name takes part in its circulation. -/
lemma Pushable.passesOn (hplain : Plain (ofStr f)) (hsafe : safeName f = true)
    (h : Pushable root fs f c) : PassesOn root fs f c where
  plain := hplain
  safe := hsafe
  no_dir := by
    rw [h.file]
    simp
  size := h.size
  room := .inr ⟨⟨(safeName_visible hsafe).2, c, h.file⟩, h.room⟩

lemma PassesOn.pushable (h : PassesOn root fs f c) (hf : entry fs root (ofStr f) = some (.file c)) :
    Pushable root fs f c where
  file := hf
  shown := visible_ofStr.mp h.visible
  size := h.size
  room := by rcases h.room with hr | ⟨-, hr⟩ <;> omega

lemma Pushable.visible (h : Pushable root fs f c) : Visible (ofStr f) := visible_ofStr.mpr h.shown

lemma Pushable.of_sameVisible (hsame : SameVisible root fs fs') (h : Pushable root fs' f c) :
    Pushable root fs f c where
  file := by rw [← hsame.entry_eq _ h.visible, h.file]
  shown := h.shown
  size := h.size
  room := by
    rw [← hsame.fileCount_eq]
    exact h.room

/-- A landing at a device that does not pass the version on opens the limit check for no
event. -/
lemma Pushable.of_placed (hplain : Plain (ofStr g)) (hg : safeName g = true)
    (hdir : entry fs root (ofStr g) ≠ some .dir)
    (hplaced : Placed root (ofStr g) d fs fs') (hnot : ¬ PassesOn root fs g d)
    (h : Pushable root fs' f c) : f ≠ g ∧ Pushable root fs f c := by
  have hfg : f ≠ g := by
    rintro rfl
    obtain rfl : d = c := by simpa [hplaced.entry_self] using h.file
    exact hnot ((h.passesOn hplain hg).of_placed hg hdir hplaced)
  refine ⟨hfg, ?_, h.shown, h.size, ?_⟩
  · rw [← hplaced.entry_ne _ h.visible fun heq => hfg (ofStr_injective heq), h.file]
  · have := h.room
    rcases fileCount_placed hplaced (safeName_visible hg).2 with ⟨-, hc⟩ | ⟨-, hc⟩ <;> omega

end Stores

/-! ### Circulation -/

section Circulation

variable [DecidableEq ι] {w : Service NodeId Sock Relay Hash C} {s s' : Net ι C} {f : String}
  {c : C}

/-- The device `i` takes the version `f`, `c` and passes it on. -/
def Takes (w : Service NodeId Sock Relay Hash C) (s : Net ι C) (i : ι) (f : String) (c : C) :
    Prop :=
  PassesOn w.root (s.device i).fs f c

/-- The version is on its way to a device that passes it on, or waits there for the
watcher. -/
inductive Moving (w : Service NodeId Sock Relay Hash C) (s : Net ι C) (f : String) (c : C) :
    Prop where
  | offered {j : ι} (hoffer : ⟨j, f, c⟩ ∈ s.offers) (htakes : Takes w s j f c)
  | pushed {i j : ι} {ps : List ι} (hjob : (s.device i).job = some ⟨f, c, ps⟩) (hj : j ∈ ps)
      (htakes : Takes w s j f c)
  | pending {i : ι} (hqueue : f ∈ (s.device i).queue)
      (hentry : entry (s.device i).fs w.root (ofStr f) = some (.file c))
      (htakes : Takes w s i f c)

/-- The version is on the move, and two devices pass it on. -/
structure Circulates (w : Service NodeId Sock Relay Hash C) (s : Net ι C) (f : String) (c : C) :
    Prop where
  moving : Moving w s f c
  two : ∃ i j, i ≠ j ∧ Takes w s i f c ∧ Takes w s j f c

lemma takes_handled {i k : ι} {answer : Option (List ι)} {g : String} {rest : List String} :
    Takes w (s.handled w i answer g rest) k f c ↔ Takes w s k f c := by
  rw [Takes, Takes, Net.handled_fs]

lemma takes_notified {i k p : ι} {g : String} {d : C} {ps : List ι} :
    Takes w (s.notified i p g d ps) k f c ↔ Takes w s k f c := by
  rw [Takes, Takes, Net.notified_fs]

lemma takes_finished {i k : ι} : Takes w (s.finished i) k f c ↔ Takes w s k f c := by
  rw [Takes, Takes, Net.finished_fs]

/-- No move makes a device take a version that it did not take before. -/
lemma Stepped.takes {m : Move ι C} {k : ι} (hstep : Stepped w s m s') (h : Takes w s' k f c) :
    Takes w s k f c := by
  cases hstep with
  | handled => exact takes_handled.mp h
  | notified => exact takes_notified.mp h
  | finished => exact takes_finished.mp h
  | @landed n o io fs' hoffer harr hplaced =>
      by_cases hk : k = o.target
      · subst hk
        rw [Takes, Net.landed_self] at h
        exact h.of_placed harr.safe harr.no_dir hplaced
      · rwa [Takes, Net.landed_ne n fs' s hk] at h
  | @lost n o io fs' hoffer hno hsame =>
      by_cases hk : k = o.target
      · subst hk
        rw [Takes, Net.lost_self] at h
        exact h.of_sameVisible hsame
      · rwa [Takes, Net.lost_ne n fs' s hk] at h

/-! ### Where a version on the move comes from -/

omit [DecidableEq ι] in
/-- A push of a version that some peer takes comes from a device that takes it as well. -/
lemma takes_of_pushes {i j : ι} {answer : Option (List ι)} {g : String} {jb : Job ι C}
    (hok : Ok w s) (hg : g ∈ (s.device i).queue)
    (hpush : pushes w.root (s.device i).fs answer g = some jb)
    (htakes : Takes w s j jb.name jb.content) :
    jb.name = g ∧ Takes w s i g jb.content
      ∧ entry (s.device i).fs w.root (ofStr g) = some (.file jb.content)
      ∧ answer = some jb.peers := by
  have hplain := hok.plain i g hg
  obtain ⟨c, ps, hp, ha, -, rfl⟩ := (pushes_eq_some_iff (hok.root i) hplain).mp hpush
  exact ⟨rfl, hp.passesOn hplain htakes.safe, hp.file, ha⟩

lemma Moving.of_handled {i : ι} {answer : Option (List ι)} {g : String} {rest : List String}
    (hok : Ok w s) (hqueue : (s.device i).queue = g :: rest)
    (h : Moving w (s.handled w i answer g rest) f c) : Moving w s f c := by
  have hg : g ∈ (s.device i).queue := by simp [hqueue]
  cases h with
  | offered hoffer htakes => exact .offered hoffer (takes_handled.mp htakes)
  | @pushed k j ps hjob hj htakes =>
      rw [takes_handled] at htakes
      by_cases hk : k = i
      · subst hk
        rw [Net.handled_self] at hjob
        obtain ⟨rfl, hi, hent, -⟩ := takes_of_pushes hok hg hjob htakes
        exact .pending hg hent hi
      · rw [Net.handled_ne w answer g rest s hk] at hjob
        exact .pushed hjob hj htakes
  | @pending k hqueue' hentry htakes =>
      rw [Net.handled_fs] at hentry
      refine .pending ?_ hentry (takes_handled.mp htakes)
      by_cases hk : k = i
      · subst hk
        rw [Net.handled_self] at hqueue'
        rw [hqueue]
        exact List.mem_cons_of_mem g hqueue'
      · rwa [Net.handled_ne w answer g rest s hk] at hqueue'

lemma Moving.of_notified {i p : ι} {g : String} {d : C} {ps : List ι}
    (hjob : (s.device i).job = some ⟨g, d, p :: ps⟩)
    (h : Moving w (s.notified i p g d ps) f c) : Moving w s f c := by
  cases h with
  | offered hoffer htakes =>
      rw [takes_notified] at htakes
      rcases List.mem_append.mp hoffer with hoffer | hoffer
      · exact .offered hoffer htakes
      · obtain ⟨rfl, rfl, rfl⟩ := by simpa using hoffer
        exact .pushed hjob List.mem_cons_self htakes
  | @pushed k j qs hjob' hj htakes =>
      rw [takes_notified] at htakes
      by_cases hk : k = i
      · subst hk
        rw [Net.notified_self] at hjob'
        obtain ⟨rfl, rfl, rfl⟩ := by simpa using hjob'
        exact .pushed hjob (List.mem_cons_of_mem p hj) htakes
      · rw [Net.notified_ne p g d ps s hk] at hjob'
        exact .pushed hjob' hj htakes
  | pending hqueue hentry htakes =>
      rw [Net.notified_queue] at hqueue
      rw [Net.notified_fs] at hentry
      exact .pending hqueue hentry (takes_notified.mp htakes)

lemma Moving.of_finished {i : ι} (h : Moving w (s.finished i) f c) : Moving w s f c := by
  cases h with
  | offered hoffer htakes => exact .offered hoffer (takes_finished.mp htakes)
  | @pushed k j qs hjob hj htakes =>
      by_cases hk : k = i
      · subst hk
        rw [Net.finished_self] at hjob
        cases hjob
      · rw [Net.finished_ne s hk] at hjob
        exact .pushed hjob hj (takes_finished.mp htakes)
  | pending hqueue hentry htakes =>
      rw [Net.finished_queue] at hqueue
      rw [Net.finished_fs] at hentry
      exact .pending hqueue hentry (takes_finished.mp htakes)

lemma Moving.of_landed {n : ℕ} {o : Offer ι C} {io : Pulling C} {fs' : FileSystem C}
    (hoffer : s.offers[n]? = some o) (harr : Arrives w s o io)
    (hplaced : Placed w.root (ofStr o.name) o.content (s.device o.target).fs fs')
    (h : Moving w (s.landed n o fs') f c) : Moving w s f c := by
  have hback := fun k => (Stepped.landed hoffer harr hplaced).takes (f := f) (c := c) (k := k)
  cases h with
  | offered hoffer' htakes => exact .offered (List.mem_of_mem_eraseIdx hoffer') (hback _ htakes)
  | pushed hjob hj htakes =>
      rw [Net.landed_job] at hjob
      exact .pushed hjob hj (hback _ htakes)
  | @pending k hqueue hentry htakes =>
      by_cases hk : k = o.target
      swap
      · rw [Net.landed_ne n fs' s hk] at hqueue hentry
        exact .pending hqueue hentry (hback _ htakes)
      subst hk
      rw [Net.landed_self] at hqueue hentry
      by_cases hf : f = o.name
      · -- the event of the landing itself
        subst hf
        obtain rfl : o.content = c := by simpa [hplaced.entry_self] using hentry
        exact .offered (List.mem_of_getElem? hoffer) (hback _ htakes)
      · have hne : ofStr f ≠ ofStr o.name := fun heq => hf (ofStr_injective heq)
        rw [hplaced.entry_ne _ htakes.visible hne] at hentry
        refine .pending ?_ hentry (hback _ htakes)
        rcases List.mem_append.mp hqueue with hq | hq
        · exact hq
        · exact absurd (List.mem_singleton.mp hq) hf

lemma Moving.of_lost {n : ℕ} {o : Offer ι C} {io : Pulling C} {fs' : FileSystem C}
    (hoffer : s.offers[n]? = some o) (hno : ¬ Arrives w s o io)
    (hsame : SameVisible w.root (s.device o.target).fs fs')
    (h : Moving w (s.lost n o fs') f c) : Moving w s f c := by
  have hback := fun k => (Stepped.lost hoffer hno hsame).takes (f := f) (c := c) (k := k)
  cases h with
  | offered hoffer' htakes => exact .offered (List.mem_of_mem_eraseIdx hoffer') (hback _ htakes)
  | pushed hjob hj htakes =>
      rw [Net.lost_job] at hjob
      exact .pushed hjob hj (hback _ htakes)
  | @pending k hqueue hentry htakes =>
      rw [Net.lost_queue] at hqueue
      refine .pending hqueue ?_ (hback _ htakes)
      by_cases hk : k = o.target
      · subst hk
        rwa [Net.lost_self, hsame.entry_eq _ htakes.visible] at hentry
      · rwa [Net.lost_ne n fs' s hk] at hentry

/-- **No version comes into circulation.**  What circulates after a move circulated
before. -/
theorem circulates_of_stepped {m : Move ι C} (hok : Ok w s) (hstep : Stepped w s m s')
    (h : Circulates w s' f c) : Circulates w s f c := by
  obtain ⟨hmoving, i, j, hne, hi, hj⟩ := h
  refine ⟨?_, i, j, hne, hstep.takes hi, hstep.takes hj⟩
  cases hstep with
  | handled hjob hqueue hanswer => exact hmoving.of_handled hok hqueue
  | notified hjob => exact hmoving.of_notified hjob
  | finished hjob => exact hmoving.of_finished
  | landed hoffer harr hplaced => exact hmoving.of_landed hoffer harr hplaced
  | lost hoffer hno hsame => exact hmoving.of_lost hoffer hno hsame

/-! ### Keeping a version in circulation -/

/-- A device takes a version after a landing of it if it did before. -/
lemma takes_landed {n : ℕ} {o : Offer ι C} {fs' : FileSystem C} {k : ι}
    (hplaced : Placed w.root (ofStr o.name) o.content (s.device o.target).fs fs')
    (h : Takes w s k o.name o.content) : Takes w (s.landed n o fs') k o.name o.content := by
  rw [Takes] at h ⊢
  by_cases hk : k = o.target
  · subst hk
    rw [Net.landed_self]
    exact h.placed hplaced
  · rwa [Net.landed_ne n fs' s hk]

/-- An offer to a device that takes it can be pulled, and then waits there for the watcher. -/
lemma exists_step_of_offered [Fintype ι] {j : ι} (hok : Ok w s)
    (hoffer : ⟨j, f, c⟩ ∈ s.offers) (htakes : Takes w s j f c) :
    ∃ s', (∃ m, Net.step w s m = some s') ∧ Moving w s' f c
      ∧ ∀ k, Takes w s k f c → Takes w s' k f c := by
  obtain ⟨n, hn⟩ := List.mem_iff_getElem?.mp hoffer
  have hhash : (w.codec.parseHash (w.codec.printHash (w.blake c))).isSome := by simp
  obtain ⟨io, hlands, htr⟩ := exists_lands htakes.plain htakes.safe htakes.no_dir hhash c
  have harr : Arrives w s ⟨j, f, c⟩ io := by
    rw [Arrives, Pulling.carrying_eq htr]
    exact hlands
  obtain ⟨fs', hstep, hplaced⟩ := exists_landed hok hn harr
  have hkeep : ∀ k, Takes w s k f c → Takes w (s.landed n ⟨j, f, c⟩ fs') k f c :=
    fun k => takes_landed hplaced
  refine ⟨_, ⟨.deliver n io, hstep⟩, .pending (i := j) ?_ ?_ (hkeep j htakes), hkeep⟩
  · rw [Net.landed_self n ⟨j, f, c⟩]
    exact List.mem_append_right _ (List.mem_singleton_self f)
  · rw [Net.landed_self n ⟨j, f, c⟩]
    exact hplaced.entry_self

/-- A push with a peer that takes the version can notify its next peer. -/
lemma exists_step_of_pushed [Fintype ι] {i j : ι} {ps : List ι}
    (hjob : (s.device i).job = some ⟨f, c, ps⟩) (hj : j ∈ ps) (htakes : Takes w s j f c) :
    ∃ s', (∃ m, Net.step w s m = some s') ∧ Moving w s' f c
      ∧ ∀ k, Takes w s k f c → Takes w s' k f c := by
  cases ps with
  | nil => cases hj
  | cons p ps =>
      have hstep : Net.step w s (.notify i) = some (s.notified i p f c ps) := by
        simp only [Net.step, Net.notify, hjob]
      refine ⟨_, ⟨_, hstep⟩, ?_, fun k => takes_notified.mpr⟩
      rcases List.mem_cons.mp hj with rfl | hj
      · exact .offered (List.mem_append_right _ (List.mem_singleton_self _))
          (takes_notified.mpr htakes)
      · refine .pushed (i := i) ?_ hj (takes_notified.mpr htakes)
        rw [Net.notified_self]

/-- While the watcher is busy with a push, that push can go on. -/
lemma exists_step_of_busy [Fintype ι] {i : ι} {jb : Job ι C}
    (hjob : (s.device i).job = some jb) (hqueue : f ∈ (s.device i).queue)
    (hentry : entry (s.device i).fs w.root (ofStr f) = some (.file c))
    (htakes : Takes w s i f c) :
    ∃ s', (∃ m, Net.step w s m = some s') ∧ Moving w s' f c
      ∧ ∀ k, Takes w s k f c → Takes w s' k f c := by
  obtain ⟨g, d, ps⟩ := jb
  cases ps with
  | nil =>
      have hstep : Net.step w s (.finish i) = some (s.finished i) := by
        simp only [Net.step, Net.finish, hjob]
      refine ⟨_, ⟨_, hstep⟩, .pending (i := i) ?_ ?_ (takes_finished.mpr htakes),
        fun k => takes_finished.mpr⟩
      · rwa [Net.finished_queue]
      · rwa [Net.finished_fs]
  | cons p ps =>
      have hstep : Net.step w s (.notify i) = some (s.notified i p g d ps) := by
        simp only [Net.step, Net.notify, hjob]
      refine ⟨_, ⟨_, hstep⟩, .pending (i := i) ?_ ?_ (takes_notified.mpr htakes),
        fun k => takes_notified.mpr⟩
      · rwa [Net.notified_queue]
      · rwa [Net.notified_fs]

lemma exists_answers [Fintype ι] (i : ι) :
    ∃ ps : List ι, Answers i (some ps) ∧ ∀ j, j ≠ i → j ∈ ps := by
  refine ⟨(Finset.univ.erase i).toList, fun qs hqs => ?_, fun j hj => by simp [hj]⟩
  obtain rfl := Option.some.inj hqs
  exact ⟨Finset.nodup_toList _, fun j => by simp⟩

/-- A free watcher can take its next event: it starts the push of the version, or the event
of the version moves up. -/
lemma exists_step_of_free [Fintype ι] {i j : ι} (hok : Ok w s) (hjob : (s.device i).job = none)
    (hqueue : f ∈ (s.device i).queue)
    (hentry : entry (s.device i).fs w.root (ofStr f) = some (.file c))
    (htakes : Takes w s i f c) (hj : j ≠ i) (htakesj : Takes w s j f c) :
    ∃ s', (∃ m, Net.step w s m = some s') ∧ Moving w s' f c
      ∧ ∀ k, Takes w s k f c → Takes w s' k f c := by
  obtain ⟨g, rest, hq⟩ := List.exists_cons_of_ne_nil (List.ne_nil_of_mem hqueue)
  obtain ⟨ps, hanswer, hps⟩ := exists_answers i
  have hstep : Net.step w s (.handle i (some ps)) = some (s.handled w i (some ps) g rest) := by
    simp only [Net.step, Net.handle, hjob, hq, if_pos hanswer]
  refine ⟨_, ⟨_, hstep⟩, ?_, fun k => takes_handled.mpr⟩
  rw [hq] at hqueue
  rcases List.mem_cons.mp hqueue with rfl | hqueue
  · refine .pushed (i := i) ?_ (hps j hj) (takes_handled.mpr htakesj)
    rw [Net.handled_self]
    exact (pushes_eq_some_iff (hok.root i) htakes.plain).mpr ⟨c, ps,
      htakes.pushable hentry, rfl, List.ne_nil_of_mem (hps j hj), rfl⟩
  · refine .pending (i := i) ?_ ?_ (takes_handled.mpr htakes)
    · rwa [Net.handled_self]
    · rwa [Net.handled_fs]

/-- **A version that circulates can go on to do so.**  Its offer is pulled, its push notifies
the next peer, or its event comes closer to the front of the queue. -/
theorem exists_step_of_circulates [Fintype ι] (hok : Ok w s) (h : Circulates w s f c) :
    ∃ s', (∃ m, Net.step w s m = some s') ∧ Circulates w s' f c := by
  obtain ⟨hmoving, i₁, i₂, hne, h₁, h₂⟩ := h
  have hnext : ∃ s', (∃ m, Net.step w s m = some s') ∧ Moving w s' f c
      ∧ ∀ k, Takes w s k f c → Takes w s' k f c := by
    cases hmoving with
    | offered hoffer htakes => exact exists_step_of_offered hok hoffer htakes
    | pushed hjob hj htakes => exact exists_step_of_pushed hjob hj htakes
    | @pending i hqueue hentry htakes =>
        cases hjob : (s.device i).job with
        | some jb => exact exists_step_of_busy hjob hqueue hentry htakes
        | none =>
            by_cases hi : i₁ = i
            · have hi₂ : i₂ ≠ i := fun heq => hne (hi.trans heq.symm)
              exact exists_step_of_free hok hjob hqueue hentry htakes hi₂ h₂
            · exact exists_step_of_free hok hjob hqueue hentry htakes hi h₁
  obtain ⟨s', hstep, hmoving', hkeep⟩ := hnext
  exact ⟨s', hstep, hmoving', i₁, i₂, hne, hkeep i₁ h₁, hkeep i₂ h₂⟩

end Circulation

end Dddatasync
