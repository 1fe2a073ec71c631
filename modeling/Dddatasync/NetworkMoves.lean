import Dddatasync.Library.Runs
import Dddatasync.Network

/-!
What the moves of the devices do, seen from the outside.

* `Arrives`, `deliver_cases`: when a delivered offer gets through `pull`, and what it does.
* `Stepped`, `stepped_of_step`: everything one move can do, one constructor for each way.
* `Ok`, `run_ok`: the stores stay directories and the events ordinary names throughout.
* `Arrival`, `Quiet`, `perform_cases`: an action brings one version to one device, or no
  store changes in a way that can be seen.
-/

namespace Dddatasync

open Fs OsString Runs

variable {ι C NodeId Sock Relay Hash : Type*} [HasLen C]

/-! ### The moves from the outside -/

section Moves

variable [DecidableEq ι] {w : Service NodeId Sock Relay Hash C} {s s' : Net ι C}

/-- The stores are directories, and events are about ordinary names. -/
structure Ok (w : Service NodeId Sock Relay Hash C) (s : Net ι C) : Prop where
  root : ∀ i, node (s.device i).fs w.root = some .dir
  plain : ∀ i, ∀ f ∈ (s.device i).queue, Plain (ofStr f)

omit [HasLen C] in
lemma Pulling.carrying_exported {io : Pulling C} {c c' : C}
    (h : (io.carrying c).transfer = .exported c') : c' = c := by
  rw [Pulling.carrying] at h
  split at h
  · exact (Transfer.exported.inj h).symm
  · rename_i hno
    exact absurd h (hno c')

omit [HasLen C] in
lemma Pulling.carrying_eq {io : Pulling C} {c : C} (h : io.transfer = .exported c) :
    io.carrying c = io := by
  cases io
  subst h
  rfl

/-- The offer `o` gets through `pull` at its target. -/
def Arrives (w : Service NodeId Sock Relay Hash C) (s : Net ι C) (o : Offer ι C)
    (io : Pulling C) : Prop :=
  Lands w.codec w.root (w.codec.printHash (w.blake o.content)) o.name (io.carrying o.content)
    (s.device o.target).fs o.content

omit [HasLen C] in
/-- A delivery puts the content in place if the offer arrives, and otherwise changes nothing
that can be seen. -/
lemma deliver_cases {n : ℕ} {io : Pulling C} (hok : Ok w s)
    (h : Net.deliver w n io s = some s') :
    ∃ o fs', s.offers[n]? = some o
      ∧ ((Arrives w s o io ∧ s' = s.landed n o fs'
          ∧ Placed w.root (ofStr o.name) o.content (s.device o.target).fs fs')
        ∨ (¬ Arrives w s o io ∧ s' = s.lost n o fs'
          ∧ SameVisible w.root (s.device o.target).fs fs')) := by
  rw [Net.deliver] at h
  cases hoffer : s.offers[n]? with
  | none => simp [hoffer] at h
  | some o =>
      simp only [hoffer] at h
      rcases hrun : pull w.codec w.root (w.codec.printHash (w.blake o.content)) o.name
        (io.carrying o.content) (s.device o.target).fs with ⟨r, fs'⟩
      rw [hrun] at h
      refine ⟨o, fs', rfl, ?_⟩
      obtain ⟨rfl, c, hl, hpl⟩ | ⟨⟨e, rfl⟩, hno, hsame⟩ := pull_cases (hok.root o.target) hrun
      · obtain rfl := Pulling.carrying_exported hl.exported
        exact .inl ⟨hl, (Option.some.inj h).symm, hpl⟩
      · exact .inr ⟨hno o.content, (Option.some.inj h).symm, hsame⟩

omit [HasLen C] in
/-- An offer in flight that can arrive can be delivered. -/
lemma exists_landed {n : ℕ} {o : Offer ι C} {io : Pulling C} (hok : Ok w s)
    (hoffer : s.offers[n]? = some o) (harr : Arrives w s o io) :
    ∃ fs', Net.deliver w n io s = some (s.landed n o fs')
      ∧ Placed w.root (ofStr o.name) o.content (s.device o.target).fs fs' := by
  have hsome : ∃ s', Net.deliver w n io s = some s' := by
    simp only [Net.deliver, hoffer]
    split <;> exact ⟨_, rfl⟩
  obtain ⟨s', hs'⟩ := hsome
  obtain ⟨o', fs', hoffer', ⟨-, rfl, hpl⟩ | ⟨hno, -, -⟩⟩ := deliver_cases hok hs'
  · obtain rfl := Option.some.inj (hoffer.symm.trans hoffer')
    exact ⟨fs', hs', hpl⟩
  · obtain rfl := Option.some.inj (hoffer.symm.trans hoffer')
    exact absurd harr hno

/-- What a move does. -/
inductive Stepped (w : Service NodeId Sock Relay Hash C) (s : Net ι C) :
    Move ι C → Net ι C → Prop where
  | handled {i : ι} {answer : Option (List ι)} {f : String} {rest : List String}
      (hjob : (s.device i).job = none) (hqueue : (s.device i).queue = f :: rest)
      (hanswer : Answers i answer) :
      Stepped w s (.handle i answer) (s.handled w i answer f rest)
  | notified {i p : ι} {f : String} {c : C} {ps : List ι}
      (hjob : (s.device i).job = some ⟨f, c, p :: ps⟩) :
      Stepped w s (.notify i) (s.notified i p f c ps)
  | finished {i : ι} {f : String} {c : C} (hjob : (s.device i).job = some ⟨f, c, []⟩) :
      Stepped w s (.finish i) (s.finished i)
  | landed {n : ℕ} {o : Offer ι C} {io : Pulling C} {fs' : FileSystem C}
      (hoffer : s.offers[n]? = some o) (harr : Arrives w s o io)
      (hplaced : Placed w.root (ofStr o.name) o.content (s.device o.target).fs fs') :
      Stepped w s (.deliver n io) (s.landed n o fs')
  | lost {n : ℕ} {o : Offer ι C} {io : Pulling C} {fs' : FileSystem C}
      (hoffer : s.offers[n]? = some o) (hno : ¬ Arrives w s o io)
      (hsame : SameVisible w.root (s.device o.target).fs fs') :
      Stepped w s (.deliver n io) (s.lost n o fs')

/-- **One move.** -/
theorem stepped_of_step [Fintype ι] {m : Move ι C} (hok : Ok w s) (h : Net.step w s m = some s') :
    Stepped w s m s' := by
  cases m with
  | handle i answer =>
      simp only [Net.step, Net.handle] at h
      split at h
      · rename_i f rest hjob hqueue
        split_ifs at h with ha
        obtain rfl := Option.some.inj h
        exact .handled hjob hqueue ha
      · cases h
  | notify i =>
      simp only [Net.step, Net.notify] at h
      split at h
      · rename_i f c p ps hjob
        obtain rfl := Option.some.inj h
        exact .notified hjob
      · cases h
  | finish i =>
      simp only [Net.step, Net.finish] at h
      split at h
      · rename_i f c hjob
        obtain rfl := Option.some.inj h
        exact .finished hjob
      · cases h
  | deliver n io =>
      obtain ⟨o, fs', hoffer, ⟨harr, rfl, hpl⟩ | ⟨hno, rfl, hsame⟩⟩ := deliver_cases hok h
      · exact .landed hoffer harr hpl
      · exact .lost hoffer hno hsame

omit [HasLen C] in
/-- A write of the user puts the content in place, under an ordinary name. -/
lemma write_action_cases {i : ι} {f : String} {c : C} (h : Net.write w i f c s = some s') :
    ∃ fs', Plain (ofStr f) ∧ s' = s.written i f c fs'
      ∧ Placed w.root (ofStr f) c (s.device i).fs fs' := by
  rw [Net.write] at h
  split_ifs at h with hplain
  obtain ⟨-, hw⟩ | ⟨-, fs', hw, hsame, hc⟩ := write_cases w.root (s.device i).fs c hplain
  · simp [hw] at h
  · simp only [hw, Option.some.injEq] at h
    exact ⟨fs', hplain, h.symm, hsame.root_eq, hc, fun m _ => hsame.entry_eq m⟩

/-! ### The invariant -/

omit [HasLen C] in
lemma Ok.of_device {i : ι} (h : Ok w s) (hne : ∀ j, j ≠ i → s'.device j = s.device j)
    (hroot : node (s'.device i).fs w.root = some .dir)
    (hplain : ∀ f ∈ (s'.device i).queue, Plain (ofStr f)) : Ok w s' := by
  constructor
  · intro j
    by_cases hj : j = i
    · rw [hj, hroot]
    · rw [hne j hj, h.root j]
  · intro j
    by_cases hj : j = i
    · rw [hj]
      exact hplain
    · rw [hne j hj]
      exact h.plain j

/-- A move keeps the stores directories and the events ordinary. -/
lemma Stepped.ok {m : Move ι C} (h : Ok w s) (hstep : Stepped w s m s') : Ok w s' := by
  cases hstep with
  | @handled i answer f rest hjob hqueue hanswer =>
      refine h.of_device (i := i) (fun j hj => by simp [hj]) (by simp [h.root i]) fun g hg => ?_
      refine h.plain i g ?_
      rw [Net.handled_self] at hg
      rw [hqueue]
      exact List.mem_cons_of_mem f hg
  | @notified i p f c ps hjob =>
      refine h.of_device (i := i) (fun j hj => by simp [hj]) (by simp [h.root i]) ?_
      rw [Net.notified_self]
      exact h.plain i
  | @finished i f c hjob =>
      refine h.of_device (i := i) (fun j hj => by simp [hj]) (by simp [h.root i]) ?_
      rw [Net.finished_self]
      exact h.plain i
  | @landed n o io fs' hoffer harr hplaced =>
      refine h.of_device (i := o.target) (fun j hj => Net.landed_ne n fs' s hj) ?_ ?_
      · rw [Net.landed_self, hplaced.root_eq, h.root o.target]
      · rw [Net.landed_self]
        intro g hg
        rcases List.mem_append.mp hg with hg | hg
        · exact h.plain o.target g hg
        · rw [List.mem_singleton.mp hg]
          exact harr.plain
  | @lost n o io fs' hoffer hno hsame =>
      refine h.of_device (i := o.target) (fun j hj => Net.lost_ne n fs' s hj) ?_ ?_
      · rw [Net.lost_self, hsame.root_eq, h.root o.target]
      · rw [Net.lost_self]
        exact h.plain o.target

omit [HasLen C] in
/-- A write of the user keeps them as well. -/
lemma Ok.written {i : ι} {f : String} {c : C} {fs' : FileSystem C} (h : Ok w s)
    (hplain : Plain (ofStr f)) (hplaced : Placed w.root (ofStr f) c (s.device i).fs fs') :
    Ok w (s.written i f c fs') := by
  refine h.of_device (i := i) (fun j hj => Net.written_ne f c fs' s hj) ?_ ?_
  · rw [Net.written_self, hplaced.root_eq, h.root i]
  · rw [Net.written_self]
    intro g hg
    rcases List.mem_append.mp hg with hg | hg
    · exact h.plain i g hg
    · rw [List.mem_singleton.mp hg]
      exact hplain

lemma perform_ok [Fintype ι] (a : Action ι C) (h : Ok w s) : Ok w (Net.perform w s a) := by
  cases a with
  | move m =>
      rw [Net.perform]
      cases hs : Net.step w s m with
      | none => exact h
      | some s' => exact (stepped_of_step h hs).ok h
  | write i f c =>
      rw [Net.perform]
      cases hs : Net.write w i f c s with
      | none => exact h
      | some s' =>
          obtain ⟨fs', hplain, rfl, hplaced⟩ := write_action_cases hs
          exact h.written hplain hplaced

/-! ### An action seen from the stores -/

/-- From `s` to `s'` the version `f`, `c` comes to the device `j`, and nothing else that can
be seen changes. -/
structure Arrival (w : Service NodeId Sock Relay Hash C) (s s' : Net ι C) (j : ι) (f : String)
    (c : C) : Prop where
  placed : Placed w.root (ofStr f) c (s.device j).fs (s'.device j).fs
  others : ∀ i, i ≠ j → s'.device i = s.device i
  log : s'.log = (j, f, c) :: s.log

/-- No version comes to a device from `s` to `s'`. -/
structure Quiet (w : Service NodeId Sock Relay Hash C) (s s' : Net ι C) : Prop where
  same : ∀ i, SameVisible w.root (s.device i).fs (s'.device i).fs
  log : s'.log = s.log

omit [HasLen C] in
lemma arrival_landed {n : ℕ} {o : Offer ι C} {fs' : FileSystem C}
    (hplaced : Placed w.root (ofStr o.name) o.content (s.device o.target).fs fs') :
    Arrival w s (s.landed n o fs') o.target o.name o.content where
  placed := by rwa [Net.landed_self]
  others := fun _ hi => Net.landed_ne n fs' s hi
  log := rfl

omit [HasLen C] in
lemma arrival_written {i : ι} {f : String} {c : C} {fs' : FileSystem C}
    (hplaced : Placed w.root (ofStr f) c (s.device i).fs fs') :
    Arrival w s (s.written i f c fs') i f c where
  placed := by rwa [Net.written_self]
  others := fun _ hj => Net.written_ne f c fs' s hj
  log := rfl

omit [HasLen C] in
lemma quiet_lost {n : ℕ} {o : Offer ι C} {fs' : FileSystem C}
    (hsame : SameVisible w.root (s.device o.target).fs fs') : Quiet w s (s.lost n o fs') where
  same := fun i => by
    by_cases hi : i = o.target
    · subst hi
      rwa [Net.lost_self]
    · rw [Net.lost_ne n fs' s hi]
      exact .refl _
  log := rfl

omit [HasLen C] [DecidableEq ι] in
lemma quiet_of_fs (hfs : ∀ i, (s'.device i).fs = (s.device i).fs) (hlog : s'.log = s.log) :
    Quiet w s s' where
  same := fun i => by
    rw [hfs i]
    exact .refl _
  log := hlog

/-- **One action.**  An offer that arrives and a write bring a version to one device; every
other action is quiet. -/
lemma perform_cases [Fintype ι] (hok : Ok w s) (a : Action ι C) :
    (Quiet w s (Net.perform w s a) ∧ ∀ n io o, a = .move (.deliver n io) →
        s.offers[n]? = some o → ¬ Arrives w s o io)
      ∨ (∃ n io o, a = .move (.deliver n io) ∧ s.offers[n]? = some o ∧ Arrives w s o io
        ∧ Arrival w s (Net.perform w s a) o.target o.name o.content)
      ∨ ∃ i f c, a = .write i f c ∧ Arrival w s (Net.perform w s a) i f c := by
  have hidle : Quiet w s s := quiet_of_fs (fun _ => rfl) rfl
  cases a with
  | write i f c =>
      rw [Net.perform]
      cases hw : Net.write w i f c s with
      | none => exact .inl ⟨hidle, by simp⟩
      | some s' =>
          obtain ⟨fs', -, rfl, hplaced⟩ := write_action_cases hw
          exact .inr (.inr ⟨i, f, c, rfl, arrival_written hplaced⟩)
  | move m =>
      rw [Net.perform]
      cases hm : Net.step w s m with
      | none =>
          refine .inl ⟨hidle, ?_⟩
          rintro n io o heq hoffer harr
          obtain rfl := Action.move.inj heq
          obtain ⟨fs', hsome, -⟩ := exists_landed hok hoffer harr
          rw [Net.step, hsome] at hm
          cases hm
      | some s' =>
          cases stepped_of_step hok hm with
          | @handled i answer f rest =>
              exact .inl ⟨quiet_of_fs (fun j => Net.handled_fs w i j answer f rest s) rfl, by simp⟩
          | @notified i p f c ps =>
              exact .inl ⟨quiet_of_fs (fun j => Net.notified_fs i j p f c ps s) rfl, by simp⟩
          | @finished i =>
              exact .inl ⟨quiet_of_fs (fun j => Net.finished_fs i j s) rfl, by simp⟩
          | @landed n o io fs' hoffer harr hplaced =>
              exact .inr (.inl ⟨n, io, o, rfl, hoffer, harr, arrival_landed hplaced⟩)
          | @lost n o io fs' hoffer hno hsame =>
              refine .inl ⟨quiet_lost hsame, ?_⟩
              rintro n' io' o' heq hoffer'
              obtain ⟨rfl, rfl⟩ := Move.deliver.inj (Action.move.inj heq)
              obtain rfl := Option.some.inj (hoffer.symm.trans hoffer')
              exact hno

/-- The invariant holds throughout every run. -/
lemma run_ok [Fintype ι] (h : Ok w s) (as : List (Action ι C)) :
    Throughout (Net.perform w) (Ok w) s as :=
  throughout_of_step (L := fun _ _ => True) (fun _ a _ h => perform_ok a h)
    (along_of_forall fun _ _ _ => trivial) h

end Moves

/-! ### Two devices -/

/-- Bytes written as a text, in the place of a hash. -/
def bytesText (bytes : List UInt8) : String :=
  String.ofList (bytes.map fun b => Char.ofNat b.toNat)

/-- Stores in `/store`, and texts for everything that is printed. -/
def storeService (blake : C → String) : Service String String String String C :=
  ⟨textCodec, blake, [ofStr "store"]⟩

/-- The devices of a user with two. -/
inductive Pair where
  | laptop
  | phone
  deriving DecidableEq

instance : Fintype Pair := ⟨{.laptop, .phone}, fun i => by cases i <;> decide⟩

/-- Two devices with empty stores in `/store`. -/
def emptyPair (C : Type*) : Net Pair C where
  device := fun _ => ⟨AList.insert [ofStr "store"] .dir ∅, [], none, []⟩
  offers := []
  log := []

omit [HasLen C] in
lemma emptyPair_ok (blake : C → String) : Ok (storeService blake) (emptyPair C) where
  root := fun _ => rfl
  plain := fun _ _ hf => absurd hf List.not_mem_nil

omit [HasLen C] in
lemma entry_emptyPair (i : Pair) (n : OsString) :
    entry ((emptyPair C).device i).fs [ofStr "store"] n = none := by
  have hne : [ofStr "store"] ++ [n] ≠ [ofStr "store"] := by simp
  exact entry_insert_of_ne ∅ .dir hne

end Dddatasync
