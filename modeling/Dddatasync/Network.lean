import Dddatasync.Sync
import Dddatasync.Watcher

/-!
The devices of one user together: each runs a watcher and a listener on its own store, and
offers travel between them.

* `Peer`, `Offer`, `Net`: the store, the pending events and the running push of every
  device, and the offers in flight.
* `pushes`: what `handle_event`, `push_file` and the import of `push` make of an event.
* `Move`, `Net.step`: a watcher takes its next event, notifies its next peer or ends its
  push; a listener pulls an offer, and the rename is an event of its own watcher.
* `Action`, `Net.perform`: these and the writes of the user.  A pull is one move, so the pulls of
  one device come one after another; a write that shows in pieces is several writes, each with
  an event of its own.
* `pushes_eq_some_iff`: the push of an event starts exactly for a `Pushable` file with peers.
-/

namespace Dddatasync

open Fs OsString

/-! ### States -/

/-- An offer on its way, with the file its hash stands for. -/
structure Offer (ι C : Type*) where
  target : ι
  name : String
  content : C

/-- A running `push`: what was imported, and the peers still to be notified. -/
structure Job (ι C : Type*) where
  name : String
  content : C
  peers : List ι

/-- A device: its store, the events its watcher has not taken yet, the push the watcher is
busy with, and the names whose file a pull put there. -/
structure Peer (ι C : Type*) where
  fs : FileSystem C
  queue : List String
  job : Option (Job ι C)
  received : List String

/-- All devices, the offers in flight, and every version that came to a device so far. -/
structure Net (ι C : Type*) where
  device : ι → Peer ι C
  offers : List (Offer ι C)
  log : List (ι × String × C)

/-- What the devices share: the printed forms, the hash of an imported file, the place of
the store. -/
structure Service (NodeId Sock Relay Hash C : Type*) where
  codec : Codec NodeId Sock Relay Hash
  blake : C → Hash
  root : AbsPath

variable {ι C NodeId Sock Relay Hash : Type*} [HasLen C]

/-! ### Pushing -/

/-- `import_file_as_collection` and the name of the offer, at the start of `push`. -/
def importFile (fs : FileSystem C) (path : PathBuf) (peers : List ι) : Option (Job ι C) :=
  match (fileName path).bind toStr, metadata fs path with
  | some name, .ok (.file c) => some ⟨name, c, peers⟩
  | _, _ => none

/-- The push a watcher starts for an event about `f`; `answer` is what `fetch_peers` says.
A push that fails before its first offer is like an answer that fails. -/
def pushes (root : AbsPath) (fs : FileSystem C) (answer : Option (List ι)) (f : String) :
    Option (Job ι C) :=
  (handleEvent root {} fs answer ⟨.modify, [⟨root, ofStr f⟩]⟩).findSome? fun r =>
    match r.2 with
    | .pushed peers => importFile fs r.1 peers
    | _ => none

/-! ### Moves -/

/-- What the watchers and listeners do. -/
inductive Move (ι C : Type*) where
  | handle (i : ι) (answer : Option (List ι))
  | notify (i : ι)
  | finish (i : ι)
  | deliver (n : ℕ) (io : Pulling C)

/-- A move, or the user of a device writing a file. -/
inductive Action (ι C : Type*) where
  | move (m : Move ι C)
  | write (i : ι) (f : String) (c : C)

/-- `fetch_peers` fails or lists every other device once. -/
def Answers (i : ι) (answer : Option (List ι)) : Prop :=
  ∀ ps ∈ answer, ps.Nodup ∧ ∀ j, j ∈ ps ↔ j ≠ i

/-- The download of an offer yields the content its hash stands for. -/
def Pulling.carrying (io : Pulling C) (c : C) : Pulling C :=
  match io.transfer with
  | .exported _ => { io with transfer := .exported c }
  | _ => io

namespace Net

variable [DecidableEq ι]

instance [Fintype ι] (i : ι) (answer : Option (List ι)) : Decidable (Answers i answer) :=
  inferInstanceAs (Decidable (∀ ps ∈ answer, ps.Nodup ∧ ∀ j, j ∈ ps ↔ j ≠ i))

/-- The device `i` becomes `d`. -/
def set (s : Net ι C) (i : ι) (d : Peer ι C) : Net ι C :=
  { s with device := Function.update s.device i d }

/-- The watcher of `i` has taken the event `f` and started the push, if there is one. -/
def handled (w : Service NodeId Sock Relay Hash C) (i : ι) (answer : Option (List ι)) (f : String)
    (rest : List String) (s : Net ι C) : Net ι C :=
  s.set i { s.device i with
    queue := rest
    job := pushes w.root (s.device i).fs answer f }

/-- The watcher of `i`, between two pushes, takes its next event. -/
def handle [Fintype ι] (w : Service NodeId Sock Relay Hash C) (i : ι)
    (answer : Option (List ι)) (s : Net ι C) : Option (Net ι C) :=
  match (s.device i).job, (s.device i).queue with
  | none, f :: rest =>
      if Answers i answer then some (s.handled w i answer f rest) else none
  | _, _ => none

/-- The device `i` has sent the offer of its push to `p`. -/
def notified (i p : ι) (f : String) (c : C) (ps : List ι) (s : Net ι C) : Net ι C :=
  { s.set i { s.device i with job := some ⟨f, c, ps⟩ } with offers := s.offers ++ [⟨p, f, c⟩] }

/-- The loop over the peers in `push`: the next one gets the offer. -/
def notify (i : ι) (s : Net ι C) : Option (Net ι C) :=
  match (s.device i).job with
  | some ⟨f, c, p :: ps⟩ => some (s.notified i p f c ps)
  | _ => none

/-- The push of `i` is over. -/
def finished (i : ι) (s : Net ι C) : Net ι C := s.set i { s.device i with job := none }

/-- The push ends when no peer is left. -/
def finish (i : ι) (s : Net ι C) : Option (Net ι C) :=
  match (s.device i).job with
  | some ⟨_, _, []⟩ => some (s.finished i)
  | _ => none

/-- The `n`-th offer `o` is in place: the rename is an event of the same device. -/
def landed (n : ℕ) (o : Offer ι C) (fs' : FileSystem C) (s : Net ι C) : Net ι C :=
  let d := s.device o.target
  { s.set o.target { d with
      fs := fs'
      queue := d.queue ++ [o.name]
      received := o.name :: d.received } with
    offers := s.offers.eraseIdx n
    log := (o.target, o.name, o.content) :: s.log }

/-- The `n`-th offer `o` is gone; what its pull left behind is `fs'`. -/
def lost (n : ℕ) (o : Offer ι C) (fs' : FileSystem C) (s : Net ι C) : Net ι C :=
  { s.set o.target { s.device o.target with fs := fs' } with offers := s.offers.eraseIdx n }

/-- A listener pulls the `n`-th offer in flight; an offer that does not arrive is a pull that
fails. -/
def deliver (w : Service NodeId Sock Relay Hash C) (n : ℕ) (io : Pulling C) (s : Net ι C) :
    Option (Net ι C) :=
  match s.offers[n]? with
  | none => none
  | some o =>
      match pull w.codec w.root (w.codec.printHash (w.blake o.content)) o.name
        (io.carrying o.content) (s.device o.target).fs with
      | (.ok (), fs') => some (landed n o fs' s)
      | (.error _, fs') => some (lost n o fs' s)

/-- A move, if it is possible. -/
def step [Fintype ι] (w : Service NodeId Sock Relay Hash C) (s : Net ι C) :
    Move ι C → Option (Net ι C)
  | .handle i answer => handle w i answer s
  | .notify i => notify i s
  | .finish i => finish i s
  | .deliver n io => deliver w n io s

/-- The user of `i` has written `f`. -/
def written (i : ι) (f : String) (c : C) (fs' : FileSystem C) (s : Net ι C) : Net ι C :=
  let d := s.device i
  { s.set i { d with
      fs := fs'
      queue := d.queue ++ [f]
      received := d.received.filter (· ≠ f) } with
    log := (i, f, c) :: s.log }

/-- The user of `i` writes `f`. -/
def write (w : Service NodeId Sock Relay Hash C) (i : ι) (f : String) (c : C) (s : Net ι C) :
    Option (Net ι C) :=
  if Plain (ofStr f) then
    match Fs.write (s.device i).fs ⟨w.root, ofStr f⟩ c with
    | .error _ => none
    | .ok fs' => some (written i f c fs' s)
  else none

/-- An action; one that is not possible changes nothing. -/
def perform [Fintype ι] (w : Service NodeId Sock Relay Hash C) (s : Net ι C) :
    Action ι C → Net ι C
  | .move m => (step w s m).getD s
  | .write i f c => (write w i f c s).getD s

omit [HasLen C] in
@[simp]
lemma set_device_self (s : Net ι C) (i : ι) (d : Peer ι C) : (s.set i d).device i = d :=
  Function.update_self ..

omit [HasLen C] in
@[simp]
lemma set_device_ne (s : Net ι C) {i j : ι} (d : Peer ι C) (h : j ≠ i) :
    (s.set i d).device j = s.device j :=
  Function.update_of_ne h ..

@[simp]
lemma handled_self (w : Service NodeId Sock Relay Hash C) (i : ι) (answer : Option (List ι))
    (f : String) (rest : List String) (s : Net ι C) :
    (s.handled w i answer f rest).device i = { s.device i with
      queue := rest
      job := pushes w.root (s.device i).fs answer f } :=
  set_device_self ..

@[simp]
lemma handled_ne (w : Service NodeId Sock Relay Hash C) {i j : ι} (answer : Option (List ι))
    (f : String) (rest : List String) (s : Net ι C) (h : j ≠ i) :
    (s.handled w i answer f rest).device j = s.device j :=
  set_device_ne s _ h

omit [HasLen C] in
@[simp]
lemma notified_self (i p : ι) (f : String) (c : C) (ps : List ι) (s : Net ι C) :
    (s.notified i p f c ps).device i = { s.device i with job := some ⟨f, c, ps⟩ } :=
  set_device_self ..

omit [HasLen C] in
@[simp]
lemma notified_ne {i j : ι} (p : ι) (f : String) (c : C) (ps : List ι) (s : Net ι C)
    (h : j ≠ i) : (s.notified i p f c ps).device j = s.device j :=
  set_device_ne s _ h

omit [HasLen C] in
@[simp]
lemma finished_self (i : ι) (s : Net ι C) :
    (s.finished i).device i = { s.device i with job := none } :=
  set_device_self ..

omit [HasLen C] in
@[simp]
lemma finished_ne {i j : ι} (s : Net ι C) (h : j ≠ i) :
    (s.finished i).device j = s.device j :=
  set_device_ne s _ h

/-- Taking an event changes no store. -/
lemma handled_fs (w : Service NodeId Sock Relay Hash C) (i j : ι) (answer : Option (List ι))
    (f : String) (rest : List String) (s : Net ι C) :
    ((s.handled w i answer f rest).device j).fs = (s.device j).fs := by
  by_cases h : j = i
  · rw [h, handled_self]
  · rw [handled_ne w answer f rest s h]

omit [HasLen C] in
lemma notified_fs (i j p : ι) (f : String) (c : C) (ps : List ι) (s : Net ι C) :
    ((s.notified i p f c ps).device j).fs = (s.device j).fs := by
  by_cases h : j = i
  · rw [h, notified_self]
  · rw [notified_ne p f c ps s h]

omit [HasLen C] in
lemma finished_fs (i j : ι) (s : Net ι C) :
    ((s.finished i).device j).fs = (s.device j).fs := by
  by_cases h : j = i
  · rw [h, finished_self]
  · rw [finished_ne s h]

omit [HasLen C] in
@[simp]
lemma landed_self (n : ℕ) (o : Offer ι C) (fs' : FileSystem C) (s : Net ι C) :
    (s.landed n o fs').device o.target = { s.device o.target with
      fs := fs'
      queue := (s.device o.target).queue ++ [o.name]
      received := o.name :: (s.device o.target).received } :=
  set_device_self ..

omit [HasLen C] in
@[simp]
lemma landed_ne (n : ℕ) {o : Offer ι C} (fs' : FileSystem C) (s : Net ι C) {j : ι}
    (h : j ≠ o.target) : (s.landed n o fs').device j = s.device j :=
  set_device_ne s _ h

omit [HasLen C] in
@[simp]
lemma lost_self (n : ℕ) (o : Offer ι C) (fs' : FileSystem C) (s : Net ι C) :
    (s.lost n o fs').device o.target = { s.device o.target with fs := fs' } :=
  set_device_self ..

omit [HasLen C] in
@[simp]
lemma lost_ne (n : ℕ) {o : Offer ι C} (fs' : FileSystem C) (s : Net ι C) {j : ι}
    (h : j ≠ o.target) : (s.lost n o fs').device j = s.device j :=
  set_device_ne s _ h

omit [HasLen C] in
/-- Sending an offer leaves the events alone. -/
lemma notified_queue (i k p : ι) (f : String) (c : C) (ps : List ι) (s : Net ι C) :
    ((s.notified i p f c ps).device k).queue = (s.device k).queue := by
  by_cases h : k = i
  · rw [h, notified_self]
  · rw [notified_ne p f c ps s h]

omit [HasLen C] in
lemma finished_queue (i k : ι) (s : Net ι C) :
    ((s.finished i).device k).queue = (s.device k).queue := by
  by_cases h : k = i
  · rw [h, finished_self]
  · rw [finished_ne s h]

omit [HasLen C] in
/-- A pull leaves the push of the device alone. -/
lemma landed_job (n : ℕ) (o : Offer ι C) (fs' : FileSystem C) (s : Net ι C) (k : ι) :
    ((s.landed n o fs').device k).job = (s.device k).job := by
  by_cases h : k = o.target
  · rw [h, landed_self]
  · rw [landed_ne n fs' s h]

omit [HasLen C] in
lemma lost_job (n : ℕ) (o : Offer ι C) (fs' : FileSystem C) (s : Net ι C) (k : ι) :
    ((s.lost n o fs').device k).job = (s.device k).job := by
  by_cases h : k = o.target
  · rw [h, lost_self]
  · rw [lost_ne n fs' s h]

omit [HasLen C] in
lemma lost_queue (n : ℕ) (o : Offer ι C) (fs' : FileSystem C) (s : Net ι C) (k : ι) :
    ((s.lost n o fs').device k).queue = (s.device k).queue := by
  by_cases h : k = o.target
  · rw [h, lost_self]
  · rw [lost_ne n fs' s h]

omit [HasLen C] in
@[simp]
lemma written_self (i : ι) (f : String) (c : C) (fs' : FileSystem C) (s : Net ι C) :
    (s.written i f c fs').device i = { s.device i with
      fs := fs'
      queue := (s.device i).queue ++ [f]
      received := (s.device i).received.filter (· ≠ f) } :=
  set_device_self ..

omit [HasLen C] in
@[simp]
lemma written_ne {i : ι} (f : String) (c : C) (fs' : FileSystem C) (s : Net ι C) {j : ι}
    (h : j ≠ i) : (s.written i f c fs').device j = s.device j :=
  set_device_ne s _ h

end Net

/-! ### What a watcher pushes -/

/-- The file `f` with content `c` is one whose event gets past every check of the watcher. -/
structure Pushable (root : AbsPath) (fs : FileSystem C) (f : String) (c : C) : Prop where
  file : entry fs root (ofStr f) = some (.file c)
  shown : startsWithDot f = false
  size : HasLen.len c ≤ maxFileBytes
  room : fileCount root fs < maxFiles

variable {root : AbsPath} {fs : FileSystem C} {f : String}

omit [HasLen C] in
lemma isFile_plain {n : OsString} (hn : Plain n) :
    isFile fs ⟨root, n⟩ = true ↔ ∃ c, entry fs root n = some (.file c) := by
  simp only [isFile, metadata, resolve_plain fs root hn, node_snoc]
  cases entry fs root n with
  | none => simp
  | some x => cases x <;> simp

/-- `push_file` calls `push` when it gets past the limit check and has peers. -/
lemma pushFile_eq_pushed_iff {Addr : Type*} {io : Faults C} {peers : Option (List Addr)}
    {path : PathBuf} {ps : List Addr} :
    pushFile root io fs peers path = .pushed ps
      ↔ (pushFile root io fs peers path).reachesFetchPeers = true ∧ peers = some ps
        ∧ ps ≠ [] := by
  simp only [pushFile]
  split_ifs
  · simp [PushOutcome.reachesFetchPeers]
  cases metadata fs path with
  | error e => simp [PushOutcome.reachesFetchPeers]
  | ok x =>
      simp only
      cases canAdd root io fs (nodeLen x) with
      | error e => simp [PushOutcome.reachesFetchPeers]
      | ok u =>
          cases peers with
          | none => simp
          | some qs =>
              cases qs with
              | nil =>
                  simp only [reduceCtorEq, Option.some.injEq, false_iff, not_and, not_not]
                  rintro - rfl
                  rfl
              | cons q qs =>
                  simp only [PushOutcome.pushed.injEq, Option.some.injEq,
                    PushOutcome.reachesFetchPeers, true_and]
                  constructor
                  · rintro rfl
                    exact ⟨rfl, by simp⟩
                  · exact fun h => h.1

omit [HasLen C] in
lemma importFile_plain {ps : List ι} (hn : Plain (ofStr f)) {c : C}
    (hf : entry fs root (ofStr f) = some (.file c)) :
    importFile fs ⟨root, ofStr f⟩ ps = some ⟨f, c, ps⟩ := by
  rw [importFile, fileName_plain root hn, metadata_plain hn hf]
  simp

/-- **The push of an event.**  It starts exactly for a pushable file with peers, and takes
the content the file has at that moment. -/
lemma pushes_eq_some_iff {answer : Option (List ι)} {jb : Job ι C}
    (hroot : node fs root = some .dir) (hn : Plain (ofStr f)) :
    pushes root fs answer f = some jb
      ↔ ∃ c ps, Pushable root fs f c ∧ answer = some ps ∧ ps ≠ [] ∧ jb = ⟨f, c, ps⟩ := by
  rw [pushes, handleEvent, if_pos (.inr rfl)]
  by_cases hpass : (!isDotFile ⟨root, ofStr f⟩ && isFile fs ⟨root, ofStr f⟩) = true
  swap
  · simp only [List.filter_cons, hpass, Bool.false_eq_true, if_false, List.filter_nil,
      List.map_nil, List.findSome?_nil, reduceCtorEq, false_iff]
    rintro ⟨c, ps, hp, -⟩
    refine hpass ?_
    rw [Bool.and_eq_true, isDotFile_ofStr hn, hp.shown]
    exact ⟨rfl, (isFile_plain hn).mpr ⟨c, hp.file⟩⟩
  simp only [List.filter_cons, hpass, if_true, List.filter_nil, List.map_cons, List.map_nil]
  rw [Bool.and_eq_true, isDotFile_ofStr hn, Bool.not_eq_true'] at hpass
  obtain ⟨hshown, hfile⟩ := hpass
  obtain ⟨c, hc⟩ := (isFile_plain hn).mp hfile
  have hreach := pushFile_reaches_iff answer hroot hn hc
  constructor
  · intro h
    cases ho : pushFile root {} fs answer ⟨root, ofStr f⟩ with
    | pushed ps =>
        simp only [ho, List.findSome?_cons, importFile_plain hn hc, Option.some.injEq] at h
        obtain ⟨hr, ha, hne⟩ := pushFile_eq_pushed_iff.mp ho
        obtain ⟨hsize, hroom⟩ := hreach.mp hr
        exact ⟨c, ps, ⟨hc, hshown, hsize, hroom⟩, ha, hne, h.symm⟩
    | statFailed e => simp [ho] at h
    | limitCheckFailed e => simp [ho] at h
    | fetchPeersFailed => simp [ho] at h
    | noPeers => simp [ho] at h
  · rintro ⟨c', ps, hp, ha, hne, rfl⟩
    obtain rfl : c = c' := by simpa [hc] using hp.file
    have ho : pushFile root {} fs answer ⟨root, ofStr f⟩ = .pushed ps :=
      pushFile_eq_pushed_iff.mpr ⟨hreach.mpr ⟨hp.size, hp.room⟩, ha, hne⟩
    simp only [ho, List.findSome?_cons, importFile_plain hn hc]

end Dddatasync
