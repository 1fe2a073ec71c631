import Dddatasync.Circulation
import Mathlib.Data.Prod.Lex

/-!
When syncing comes to rest.

* `measure`: the offers to devices that pass them on, then the work that is left;
  `Stepped.measure_lt`: every move makes it smaller while no version circulates.
* `quiesces_iff`: the moves come to an end exactly when no version circulates.
* `Settles`, `syncing_quiesces_iff`: when a run of moves and writes ends in rest, without a
  version pushed back to a device that has it.
-/

namespace Dddatasync

open Fs OsString Runs

variable {ι C NodeId Sock Relay Hash : Type*} [HasLen C]

/-! ### The measure -/

section Measure

variable [DecidableEq ι] {w : Service NodeId Sock Relay Hash C} {s s' : Net ι C}

open Classical in
/-- The peers of the push of `d` still to be notified that `P` picks. -/
noncomputable def aimedOf (P : ι → String → C → Prop) (d : Peer ι C) : ℕ :=
  d.job.elim 0 fun jb => jb.peers.countP fun j => P j jb.name jb.content

open Classical in
/-- The offers in flight, and those still to be sent, whose target and version `P` picks. -/
noncomputable def aimed [Fintype ι] (P : ι → String → C → Prop) (s : Net ι C) : ℕ :=
  s.offers.countP (fun o => P o.target o.name o.content) + ∑ i, aimedOf P (s.device i)

open Classical in
/-- What an event costs among `n` devices: the push of a pushable file has an offer for each
of them. -/
noncomputable def eventCost (n : ℕ) (root : AbsPath) (fs : FileSystem C) (f : String) : ℕ :=
  if ∃ c, Pushable root fs f c then 3 * n + 2 else 1

/-- The work a device still has: its events, its push, and each peer to be notified. -/
noncomputable def workOf [Fintype ι] (w : Service NodeId Sock Relay Hash C) (d : Peer ι C) :
    ℕ :=
  (d.queue.map (eventCost (Fintype.card ι) w.root d.fs)).sum
    + d.job.elim 0 fun jb => 3 * jb.peers.length + 1

/-- The work of all devices, and the offers in flight. -/
noncomputable def work [Fintype ι] (w : Service NodeId Sock Relay Hash C) (s : Net ι C) : ℕ :=
  2 * s.offers.length + ∑ i, workOf w (s.device i)

omit [HasLen C] [DecidableEq ι] in
lemma aimed_mono [Fintype ι] {P Q : ι → String → C → Prop} (h : ∀ i f c, P i f c → Q i f c) :
    aimed P s ≤ aimed Q s := by
  refine Nat.add_le_add ?_ (Finset.sum_le_sum fun i _ => ?_)
  · refine List.countP_mono_left fun o _ ho => ?_
    simpa using h _ _ _ (by simpa using ho)
  · rw [aimedOf, aimedOf]
    cases (s.device i).job with
    | none => exact le_rfl
    | some jb =>
        refine List.countP_mono_left fun j _ hj => ?_
        simpa using h _ _ _ (by simpa using hj)

omit [HasLen C] in
/-- A sum over the devices when one of them changes. -/
lemma sum_device [Fintype ι] (g : Peer ι C → ℕ) (i : ι)
    (hne : ∀ j, j ≠ i → s'.device j = s.device j) :
    ∑ j, g (s'.device j) + g (s.device i) = ∑ j, g (s.device j) + g (s'.device i) := by
  rw [← Finset.add_sum_erase _ _ (Finset.mem_univ i),
    ← Finset.add_sum_erase _ (fun j => g (s.device j)) (Finset.mem_univ i),
    Finset.sum_congr rfl fun j hj => congrArg g (hne j (Finset.ne_of_mem_erase hj))]
  omega

lemma perm_eraseIdx {α : Type*} {l : List α} {n : ℕ} {a : α} (h : l[n]? = some a) :
    (a :: l.eraseIdx n).Perm l := by
  obtain ⟨hn, rfl⟩ := List.getElem?_eq_some_iff.mp h
  exact List.getElem_cons_eraseIdx_perm hn

/-! ### Every move is progress -/

variable [Fintype ι] {P : ι → String → C → Prop}

lemma notified_lt {i p : ι} {f : String} {c : C} {ps : List ι}
    (hjob : (s.device i).job = some ⟨f, c, p :: ps⟩) :
    aimed P (s.notified i p f c ps) = aimed P s
      ∧ work w (s.notified i p f c ps) < work w s := by
  have hne : ∀ j, j ≠ i → (s.notified i p f c ps).device j = s.device j :=
    fun j hj => Net.notified_ne p f c ps s hj
  have haimed := sum_device (aimedOf P) i hne
  have hwork := sum_device (workOf w) i hne
  rw [Net.notified_self] at haimed hwork
  have hoffers : (s.notified i p f c ps).offers = s.offers ++ [⟨p, f, c⟩] := rfl
  constructor
  · rw [aimed, aimed, hoffers, List.countP_append]
    simp only [aimedOf, hjob, Option.elim_some, List.countP_cons, List.countP_nil] at haimed ⊢
    omega
  · rw [work, work, hoffers, List.length_append]
    simp only [workOf, hjob, Option.elim_some, List.length_cons, List.length_nil]
      at hwork ⊢
    omega

lemma finished_lt {i : ι} {f : String} {c : C} (hjob : (s.device i).job = some ⟨f, c, []⟩) :
    aimed P (s.finished i) = aimed P s ∧ work w (s.finished i) < work w s := by
  have hne : ∀ j, j ≠ i → (s.finished i).device j = s.device j :=
    fun j hj => Net.finished_ne s hj
  have haimed := sum_device (aimedOf P) i hne
  have hwork := sum_device (workOf w) i hne
  rw [Net.finished_self] at haimed hwork
  have hoffers : (s.finished i).offers = s.offers := rfl
  constructor
  · rw [aimed, aimed, hoffers]
    simp only [aimedOf, hjob, Option.elim_some, Option.elim_none, List.countP_nil] at haimed ⊢
    omega
  · rw [work, work, hoffers]
    simp only [workOf, hjob, Option.elim_some, Option.elim_none, List.length_nil]
      at hwork ⊢
    omega

/-- Taking an event is progress if no peer takes the version that is pushed. -/
lemma handled_lt {i : ι} {answer : Option (List ι)} {f : String} {rest : List String}
    (hok : Ok w s) (hjob : (s.device i).job = none) (hqueue : (s.device i).queue = f :: rest)
    (hanswer : Answers i answer)
    (hnone : ∀ jb, pushes w.root (s.device i).fs answer f = some jb →
      ∀ j ∈ jb.peers, ¬ P j jb.name jb.content) :
    aimed P (s.handled w i answer f rest) = aimed P s
      ∧ work w (s.handled w i answer f rest) < work w s := by
  have hne : ∀ j, j ≠ i → (s.handled w i answer f rest).device j = s.device j :=
    fun j hj => Net.handled_ne w answer f rest s hj
  have haimed := sum_device (aimedOf P) i hne
  have hwork := sum_device (workOf w) i hne
  rw [Net.handled_self] at haimed hwork
  have hoffers : (s.handled w i answer f rest).offers = s.offers := rfl
  have hplain : Plain (ofStr f) := hok.plain i f (by simp [hqueue])
  rw [aimed, aimed, work, work, hoffers]
  simp only [aimedOf, workOf, hjob, hqueue, Option.elim_none, List.map_cons, List.sum_cons]
    at haimed hwork ⊢
  cases hpush : pushes w.root (s.device i).fs answer f with
  | none =>
      have hcost : 0 < eventCost (Fintype.card ι) w.root (s.device i).fs f := by
        rw [eventCost]
        split_ifs <;> omega
      simp only [hpush, Option.elim_none] at haimed hwork ⊢
      omega
  | some jb =>
      classical
      have hzero : jb.peers.countP (fun j => decide (P j jb.name jb.content)) = 0 := by
        rw [List.countP_eq_zero]
        intro j hj
        simpa using hnone jb hpush j hj
      obtain ⟨c, ps, hp, rfl, -, rfl⟩ :=
        (pushes_eq_some_iff (hok.root i) hplain).mp hpush
      have hcost : eventCost (Fintype.card ι) w.root (s.device i).fs f
          = 3 * Fintype.card ι + 2 := if_pos ⟨c, hp⟩
      have hcard : ps.length ≤ Fintype.card ι := (hanswer ps rfl).1.length_le_card
      simp only [hpush, Option.elim_some] at haimed hwork hzero ⊢
      omega

omit [DecidableEq ι] [Fintype ι] in
lemma eventCost_pos (n : ℕ) (root : AbsPath) (fs : FileSystem C) (f : String) :
    0 < eventCost n root fs f := by
  rw [eventCost]
  split_ifs <;> omega

omit [DecidableEq ι] [Fintype ι] in
lemma eventCost_le {n : ℕ} {root : AbsPath} {fs fs' : FileSystem C} {f : String}
    (h : ∀ c, Pushable root fs' f c → Pushable root fs f c) :
    eventCost n root fs' f ≤ eventCost n root fs f := by
  by_cases hp : ∃ c, Pushable root fs' f c
  · have hp' : ∃ c, Pushable root fs f c := hp.imp h
    rw [eventCost, eventCost, if_pos hp, if_pos hp']
  · rw [eventCost, if_neg hp]
    exact eventCost_pos n root fs f

/-- A pull that fails is progress. -/
lemma lost_lt {n : ℕ} {o : Offer ι C} {fs' : FileSystem C} (hoffer : s.offers[n]? = some o)
    (hsame : SameVisible w.root (s.device o.target).fs fs') :
    aimed P (s.lost n o fs') ≤ aimed P s ∧ work w (s.lost n o fs') < work w s := by
  have hne : ∀ j, j ≠ o.target → (s.lost n o fs').device j = s.device j :=
    fun j hj => Net.lost_ne n fs' s hj
  have haimed := sum_device (aimedOf P) o.target hne
  have hwork := sum_device (workOf w) o.target hne
  rw [Net.lost_self] at haimed hwork
  have hperm := perm_eraseIdx hoffer
  have hoffers : (s.lost n o fs').offers = s.offers.eraseIdx n := rfl
  have hcost : ((s.device o.target).queue.map (eventCost (Fintype.card ι) w.root fs')).sum
      ≤ ((s.device o.target).queue.map
        (eventCost (Fintype.card ι) w.root (s.device o.target).fs)).sum :=
    List.sum_le_sum fun f _ => eventCost_le fun c hp => hp.of_sameVisible hsame
  rw [aimed, aimed, work, work, hoffers, ← hperm.countP_eq, ← hperm.length_eq,
    List.countP_cons, List.length_cons]
  simp only [aimedOf, workOf] at haimed hwork ⊢
  omega

/-- A pull that gets through is progress: an offer less to a device that takes it, or less
work. -/
lemma landed_lt {n : ℕ} {o : Offer ι C} {io : Pulling C} {fs' : FileSystem C}
    (hoffer : s.offers[n]? = some o) (harr : Arrives w s o io)
    (hplaced : Placed w.root (ofStr o.name) o.content (s.device o.target).fs fs') :
    aimed (Takes w s) (s.landed n o fs') < aimed (Takes w s) s
      ∨ aimed (Takes w s) (s.landed n o fs') ≤ aimed (Takes w s) s
        ∧ work w (s.landed n o fs') < work w s := by
  have hne : ∀ j, j ≠ o.target → (s.landed n o fs').device j = s.device j :=
    fun j hj => Net.landed_ne n fs' s hj
  have haimed := sum_device (aimedOf (Takes w s)) o.target hne
  have hwork := sum_device (workOf w) o.target hne
  rw [Net.landed_self] at haimed hwork
  have hperm := perm_eraseIdx hoffer
  have hoffers : (s.landed n o fs').offers = s.offers.eraseIdx n := rfl
  rw [aimed, aimed, work, work, hoffers, ← hperm.countP_eq, ← hperm.length_eq,
    List.countP_cons, List.length_cons]
  by_cases htakes : Takes w s o.target o.name o.content
  · left
    simp only [aimedOf, htakes, decide_true, if_true] at haimed ⊢
    omega
  · right
    have hpushable : ∀ f c, Pushable w.root fs' f c
        → f ≠ o.name ∧ Pushable w.root (s.device o.target).fs f c :=
      fun f c hp => hp.of_placed harr.plain harr.safe harr.no_dir hplaced htakes
    have hcost : ((s.device o.target).queue.map (eventCost (Fintype.card ι) w.root fs')).sum
        ≤ ((s.device o.target).queue.map
          (eventCost (Fintype.card ι) w.root (s.device o.target).fs)).sum :=
      List.sum_le_sum fun f _ => eventCost_le fun c hp => (hpushable f c hp).2
    have hnew : eventCost (Fintype.card ι) w.root fs' o.name = 1 :=
      if_neg fun ⟨c, hp⟩ => (hpushable _ c hp).1 rfl
    simp only [aimedOf, workOf, List.map_append, List.map_cons, List.map_nil, List.sum_append,
      List.sum_cons, List.sum_nil, hnew] at haimed hwork ⊢
    omega

/-- The measure of rest: first the offers to devices that pass them on, then the work. -/
noncomputable def measure (w : Service NodeId Sock Relay Hash C) (s : Net ι C) : ℕ ×ₗ ℕ :=
  toLex (aimed (Takes w s) s, work w s)

/-- **Every move is progress** while no version circulates. -/
lemma Stepped.measure_lt {m : Move ι C} (hok : Ok w s) (hrest : ∀ f c, ¬ Circulates w s f c)
    (hstep : Stepped w s m s') : measure w s' < measure w s := by
  have hmono : aimed (Takes w s') s' ≤ aimed (Takes w s) s' :=
    aimed_mono fun _ _ _ h => hstep.takes h
  have hprogress : aimed (Takes w s) s' < aimed (Takes w s) s
      ∨ aimed (Takes w s) s' ≤ aimed (Takes w s) s ∧ work w s' < work w s := by
    cases hstep with
    | @handled i answer f rest hjob hqueue hanswer =>
        have hmem : f ∈ (s.device i).queue := by simp [hqueue]
        have hnone : ∀ jb, pushes w.root (s.device i).fs answer f = some jb →
            ∀ j ∈ jb.peers, ¬ Takes w s j jb.name jb.content := by
          intro jb hpush j hj htakes
          obtain ⟨hname, hi, hent, hans⟩ := takes_of_pushes hok hmem hpush htakes
          have hne : j ≠ i := ((hanswer _ hans).2 j).mp hj
          rw [hname] at htakes
          exact hrest f jb.content ⟨.pending hmem hent hi, j, i, hne, htakes, hi⟩
        obtain ⟨ha, hw⟩ := handled_lt hok hjob hqueue hanswer hnone
        exact .inr ⟨ha.le, hw⟩
    | notified hjob =>
        obtain ⟨ha, hw⟩ := notified_lt (w := w) (P := Takes w s) hjob
        exact .inr ⟨ha.le, hw⟩
    | finished hjob =>
        obtain ⟨ha, hw⟩ := finished_lt (w := w) (P := Takes w s) hjob
        exact .inr ⟨ha.le, hw⟩
    | landed hoffer harr hplaced => exact landed_lt hoffer harr hplaced
    | lost hoffer hno hsame => exact .inr (lost_lt hoffer hsame)
  rw [measure, measure, Prod.Lex.toLex_lt_toLex]
  omega

/-- **When syncing comes to rest.**  The moves come to an end, whatever their order, exactly
when no version circulates. -/
theorem quiesces_iff (hok : Ok w s) :
    Quiesces (Net.step w) s ↔ ∀ f c, ¬ Circulates w s f c := by
  constructor
  · intro h f c hcirc
    refine not_quiesces_of_progress (I := fun s => Ok w s ∧ Circulates w s f c) ⟨hok, hcirc⟩ ?_ h
    rintro t ⟨ht, hc⟩
    obtain ⟨t', ⟨m, hm⟩, hc'⟩ := exists_step_of_circulates ht hc
    exact ⟨t', ⟨m, hm⟩, (stepped_of_step ht hm).ok ht, hc'⟩
  · intro hrest
    refine quiesces_of_measure (I := fun s => Ok w s ∧ ∀ f c, ¬ Circulates w s f c)
      (measure w) ⟨hok, hrest⟩ ?_
    rintro t m t' ⟨ht, hr⟩ hm
    have hstep := stepped_of_step ht hm
    exact ⟨⟨hstep.ok ht, fun f c hc => hr f c (circulates_of_stepped ht hstep hc)⟩,
      hstep.measure_lt ht hr⟩

end Measure

/-! ### Runs -/

section Echoes

variable [Fintype ι] [DecidableEq ι]

/-- A watcher starts the push of a version its device got by a pull, with a peer that holds
this version. -/
def Echoes (w : Service NodeId Sock Relay Hash C) (s : Net ι C) : Action ι C → Prop
  | .move (.handle i answer) => ∃ s' jb, Net.step w s (.handle i answer) = some s'
      ∧ (s'.device i).job = some jb ∧ jb.name ∈ (s.device i).received
      ∧ ∃ j ∈ jb.peers, entry (s.device j).fs w.root (ofStr jb.name) = some (.file jb.content)
  | _ => False

/-- A watcher that knows its peers comes to an event for a file its device got by a pull and
another device holds, while the file is pushable. -/
def MeetsReceived (w : Service NodeId Sock Relay Hash C) (s : Net ι C) : Action ι C → Prop
  | .move (.handle i answer) => (s.device i).job = none ∧ Answers i answer ∧ answer.isSome
      ∧ ∃ f rest c, (s.device i).queue = f :: rest ∧ f ∈ (s.device i).received
        ∧ Pushable w.root (s.device i).fs f c
        ∧ ∃ j, j ≠ i ∧ entry (s.device j).fs w.root (ofStr f) = some (.file c)
  | _ => False

/-- The run `as` from `s` pushes no received version to a device that has it, and after it
every sequence of moves is finite. -/
structure Settles (w : Service NodeId Sock Relay Hash C) (s : Net ι C) (as : List (Action ι C)) :
    Prop where
  no_echo : Along (Net.perform w) (fun s a => ¬ Echoes w s a) s as
  finite : Quiesces (Net.step w) (as.foldl (Net.perform w) s)

variable {w : Service NodeId Sock Relay Hash C} {s : Net ι C}

lemma echoes_iff (hok : Ok w s) (a : Action ι C) : Echoes w s a ↔ MeetsReceived w s a := by
  cases a with
  | write i f c => exact Iff.rfl
  | move m =>
      cases m with
      | notify i => exact Iff.rfl
      | finish i => exact Iff.rfl
      | deliver n io => exact Iff.rfl
      | handle i answer =>
          constructor
          · rintro ⟨s', jb, hstep, hjob', hrec, j, hj, hent⟩
            cases stepped_of_step hok hstep with
            | @handled _ _ f rest hjob hqueue hanswer =>
                rw [Net.handled_self] at hjob'
                obtain ⟨c, ps, hp, rfl, -, rfl⟩ := (pushes_eq_some_iff (hok.root i)
                  (hok.plain i f (by simp [hqueue]))).mp hjob'
                exact ⟨hjob, hanswer, rfl, f, rest, c, hqueue, hrec, hp, j,
                  ((hanswer ps rfl).2 j).mp hj, hent⟩
          · rintro ⟨hjob, hanswer, hsome, f, rest, c, hqueue, hrec, hp, j, hj, hent⟩
            obtain ⟨ps, rfl⟩ := Option.isSome_iff_exists.mp hsome
            have hmem : j ∈ ps := ((hanswer ps rfl).2 j).mpr hj
            have hpush := (pushes_eq_some_iff (hok.root i)
              (hok.plain i f (by simp [hqueue]))).mpr
                ⟨c, ps, hp, rfl, List.ne_nil_of_mem hmem, rfl⟩
            refine ⟨s.handled w i (some ps) f rest, ⟨f, c, ps⟩, ?_, ?_, hrec, j, hmem, hent⟩
            · simp only [Net.step, Net.handle, hjob, hqueue, if_pos hanswer]
            · rw [Net.handled_self]
              exact hpush

/-- **When a run settles.**  A run of moves and writes pushes no received version back and
leaves a state from which every sequence of moves is finite, exactly when no watcher meets
a received version that it can push and another device holds, and no version circulates
at the end. -/
theorem syncing_quiesces_iff (w : Service NodeId Sock Relay Hash C) {s : Net ι C} (hok : Ok w s)
    (as : List (Action ι C)) :
    Settles w s as ↔ Along (Net.perform w) (fun s a => ¬ MeetsReceived w s a) s as
      ∧ ∀ f c, ¬ Circulates w (as.foldl (Net.perform w) s) f c := by
  have hfree : Along (Net.perform w) (fun _ _ => True) s as :=
    along_of_forall fun _ _ _ => trivial
  have hecho : Along (Net.perform w) (fun s a => ¬ Echoes w s a) s as
      ↔ Along (Net.perform w) (fun s a => ¬ MeetsReceived w s a) s as :=
    along_congr (fun _ a _ h _ => perform_ok a h)
      (fun _ a _ h => not_congr (echoes_iff h a)) hfree hok
  have hrest := quiesces_iff (run_ok hok as as List.prefix_rfl)
  constructor
  · rintro ⟨h, hq⟩
    exact ⟨hecho.mp h, hrest.mp hq⟩
  · rintro ⟨h, hq⟩
    exact ⟨hecho.mpr h, hrest.mpr hq⟩

end Echoes

/-! ### Two empty stores -/

/-- The user of the laptop writes the one-byte file `a`, and it is pushed to the phone. -/
def oneWay : List (Action Pair (List UInt8)) :=
  [.write .laptop "a" [1], .move (.handle .laptop (some [.phone])), .move (.notify .laptop),
    .move (.deliver 0 { recv := ⟨0, 0⟩, exportStamp := ⟨0, 1⟩, transfer := .exported [1] }),
    .move (.finish .laptop)]

/-- **Ping-pong.**  After one write to two empty stores the file is pushed back and forth
without an end. -/
theorem ping_pong : Ok (storeService bytesText) (emptyPair (List UInt8))
    ∧ (∀ i, WithinLimits [ofStr "store"] ((emptyPair (List UInt8)).device i).fs
      ∧ fileCount [ofStr "store"] ((emptyPair (List UInt8)).device i).fs < maxFiles)
    ∧ ¬ Along (Net.perform (storeService bytesText))
      (fun s a => ¬ Echoes (storeService bytesText) s a) (emptyPair (List UInt8))
      (oneWay ++ [.move (.handle .phone (some [.laptop]))])
    ∧ ¬ Quiesces (Net.step (storeService bytesText))
      (oneWay.foldl (Net.perform (storeService bytesText)) (emptyPair (List UInt8))) := by
  have hok : Ok (storeService bytesText)
      (oneWay.foldl (Net.perform (storeService bytesText)) (emptyPair (List UInt8))) :=
    run_ok (emptyPair_ok bytesText) oneWay oneWay List.prefix_rfl
  refine ⟨emptyPair_ok bytesText, by decide, fun h => ?_, fun h => ?_⟩
  · refine h oneWay _ List.prefix_rfl ((echoes_iff hok _).mpr ?_)
    exact ⟨rfl, by decide, rfl, "a", [], [1], by decide, by decide,
      ⟨by decide, by decide, by decide, by decide⟩, .laptop, by decide, by decide⟩
  · have htakes : ∀ i, Takes (storeService bytesText)
        (oneWay.foldl (Net.perform (storeService bytesText)) (emptyPair _)) i "a" [1] := by
      intro i
      cases i
      · exact ⟨by decide, by decide, by decide, by decide, .inl (by decide)⟩
      · exact ⟨by decide, by decide, by decide, by decide, .inl (by decide)⟩
    exact (quiesces_iff hok).mp h "a" [1]
      ⟨.pending (i := .phone) (by decide) (by decide) (htakes _), .laptop, .phone, by decide,
        htakes _, htakes _⟩

theorem oneWay_settles_iff :
    Settles (storeService bytesText) (emptyPair (List UInt8)) oneWay
      ↔ Along (Net.perform (storeService bytesText))
          (fun s a => ¬ MeetsReceived (storeService bytesText) s a) (emptyPair (List UInt8)) oneWay
        ∧ ∀ f c, ¬ Circulates (storeService bytesText)
          (oneWay.foldl (Net.perform (storeService bytesText)) (emptyPair (List UInt8))) f c :=
  syncing_quiesces_iff (storeService bytesText) (emptyPair_ok bytesText) oneWay

end Dddatasync
