import Dddatasync.Store

/-!
The event side of the watcher: `handle_event` and `push_file` of `src/watcher.rs`.

* `handleEvent`: which paths of an event are pushed, and how far `pushFile` gets with
  each of them (`PushOutcome`).
* `mem_handleEvent_iff`: a Create or Modify event for a visible file runs `pushFile` on
  it, and nothing else does.
* `push_gate_agrees_iff`: the limit check before a push agrees with the limits of the
  store except when the store holds exactly `maxFiles` files.
-/

namespace Dddatasync

open Fs OsString

variable {C : Type*} [HasLen C]

/-- `notify::EventKind`, without the details. -/
inductive EventKind where
  | any
  | access
  | create
  | modify
  | remove
  | other
  deriving DecidableEq, Repr

/-- A `notify::Event`: its kind and the paths it is about. -/
structure Event where
  kind : EventKind
  paths : List PathBuf

/-- How far `push_file` gets. -/
inductive PushOutcome (Addr : Type*) where
  | statFailed (e : IoError)
  | limitCheckFailed (e : StoreError)
  | fetchPeersFailed
  | noPeers
  | pushed (peers : List Addr)

/-- `push_file` got past the limit check: it asked the rendezvous server for peers. -/
def PushOutcome.reachesFetchPeers {Addr : Type*} : PushOutcome Addr → Bool
  | .statFailed _ => false
  | .limitCheckFailed _ => false
  | .fetchPeersFailed => true
  | .noPeers => true
  | .pushed _ => true

/-- `is_dot_file`: names without a file name or not in UTF-8 count as hidden. -/
def isDotFile (path : PathBuf) : Bool :=
  match fileName path with
  | none => true
  | some n =>
      match toStr n with
      | none => true
      | some s => startsWithDot s

variable {Addr : Type*}

/-- `Watcher::push_file`; `peers` is what `fetch_peers` answers, `none` an error. -/
def pushFile (root : AbsPath) (io : Faults C) (fs : FileSystem C) (peers : Option (List Addr))
    (path : PathBuf) : PushOutcome Addr :=
  if io.stat then .statFailed .other
  else
    match metadata fs path with
    | .error e => .statFailed e
    | .ok stat =>
        match canAdd root io fs (nodeLen stat) with
        | .error e => .limitCheckFailed e
        | .ok () =>
            match peers with
            | none => .fetchPeersFailed
            | some [] => .noPeers
            | some ps => .pushed ps

/-- `Watcher::handle_event`: the paths handed to `push_file`, in order, each with the
outcome. -/
def handleEvent (root : AbsPath) (io : Faults C) (fs : FileSystem C)
    (peers : Option (List Addr)) (ev : Event) : List (PathBuf × PushOutcome Addr) :=
  if ev.kind = .create ∨ ev.kind = .modify then
    (ev.paths.filter fun p => !isDotFile p && isFile fs p).map fun p =>
      (p, pushFile root io fs peers p)
  else []

/-- `push_file` runs on exactly the visible regular files named by a Create or Modify
event. -/
lemma mem_handleEvent_iff {root : AbsPath} {io : Faults C} {fs : FileSystem C}
    {peers : Option (List Addr)} {ev : Event} {path : PathBuf} {o : PushOutcome Addr} :
    (path, o) ∈ handleEvent root io fs peers ev ↔
      (ev.kind = .create ∨ ev.kind = .modify) ∧ path ∈ ev.paths ∧ isDotFile path = false
        ∧ isFile fs path = true ∧ o = pushFile root io fs peers path := by
  rw [handleEvent]
  split_ifs with hk
  · simp only [List.mem_map, List.mem_filter, Bool.and_eq_true, Bool.not_eq_true', Prod.mk.injEq,
      hk, true_and]
    constructor
    · rintro ⟨p, ⟨hp, hd, hf⟩, rfl, rfl⟩
      exact ⟨hp, hd, hf, rfl⟩
    · rintro ⟨hp, hd, hf, rfl⟩
      exact ⟨path, ⟨hp, hd, hf⟩, rfl, rfl⟩
  · simp [hk]

/-! ### The limit gate -/

/-- `is_dot_file` keeps exactly the visible names among the UTF-8 names. -/
lemma isDotFile_ofStr {root : AbsPath} {s : String} (h : Plain (ofStr s)) :
    isDotFile ⟨root, ofStr s⟩ = startsWithDot s := by
  rw [isDotFile, fileName_plain root h]
  simp

/-- `push_file` on a file already in the store gets past the limit check exactly when its
size is legal and the count, the file itself included, is still below `maxFiles`. -/
lemma pushFile_reaches_iff {root : AbsPath} {fs : FileSystem C} (peers : Option (List Addr))
    {n : OsString} {c : C} (hroot : node fs root = some .dir) (hn : Plain n)
    (hf : entry fs root n = some (.file c)) :
    (pushFile root {} fs peers ⟨root, n⟩).reachesFetchPeers = true
      ↔ HasLen.len c ≤ maxFileBytes ∧ fileCount root fs < maxFiles := by
  have hgate := canAddLocked_eq_ok_iff {} (HasLen.len c) hroot rfl
  rw [← hgate]
  simp only [pushFile, metadata_plain hn hf, canAdd, nodeLen, Bool.false_eq_true, if_false]
  cases hg : canAddLocked root {} fs (HasLen.len c) with
  | error e => simp [PushOutcome.reachesFetchPeers]
  | ok u =>
      cases peers with
      | none => simp [PushOutcome.reachesFetchPeers]
      | some ps => cases ps <;> simp [PushOutcome.reachesFetchPeers]

/-- The handling of `ev` takes the file at `path` past the limit check exactly when
`count` files of which this one has `size` bytes are within the limits. -/
def GateAgrees (root : AbsPath) (fs : FileSystem C) (peers : Option (List Addr)) (ev : Event)
    (path : PathBuf) (count size : ℕ) : Prop :=
  (∃ o, (path, o) ∈ handleEvent root {} fs peers ev ∧ o.reachesFetchPeers = true)
    ↔ count ≤ maxFiles ∧ size ≤ maxFileBytes

lemma handleEvent_reaches_iff {root : AbsPath} {fs : FileSystem C}
    {peers : Option (List Addr)} {s : String} {c : C} {ev : Event}
    (hroot : node fs root = some .dir) (hn : Plain (ofStr s)) (hs : startsWithDot s = false)
    (hf : entry fs root (ofStr s) = some (.file c))
    (hk : ev.kind = .create ∨ ev.kind = .modify) (hp : ⟨root, ofStr s⟩ ∈ ev.paths) :
    (∃ o, (⟨root, ofStr s⟩, o) ∈ handleEvent root {} fs peers ev
        ∧ o.reachesFetchPeers = true)
      ↔ HasLen.len c ≤ maxFileBytes ∧ fileCount root fs < maxFiles := by
  rw [← pushFile_reaches_iff peers hroot hn hf]
  have hfile : isFile fs ⟨root, ofStr s⟩ = true := by
    rw [isFile, metadata_plain hn hf]
  constructor
  · rintro ⟨o, hmem, ho⟩
    rw [mem_handleEvent_iff] at hmem
    rwa [← hmem.2.2.2.2]
  · intro h
    exact ⟨_, mem_handleEvent_iff.mpr ⟨hk, hp, by rw [isDotFile_ofStr hn, hs], hfile, rfl⟩, h⟩

/-- **The limit gate of the watcher.**  For a visible file of the store and a Create or
Modify event naming it, getting past the check of `push_file` and being within the
limits are the same, except for a legal file in a store of exactly `maxFiles` files:
the check is the one for a file still to be added, and it counts the file once more. -/
theorem push_gate_agrees_iff {root : AbsPath} {fs : FileSystem C} {l : List FileEntry}
    (hl : files root {} fs = .ok l) {s : String} {c : C} (hn : Plain (ofStr s))
    (hs : startsWithDot s = false) (hf : entry fs root (ofStr s) = some (.file c))
    {ev : Event} (hk : ev.kind = .create ∨ ev.kind = .modify)
    (hp : ⟨root, ofStr s⟩ ∈ ev.paths) (peers : Option (List Addr)) :
    GateAgrees root fs peers ev ⟨root, ofStr s⟩ l.length (HasLen.len c)
      ↔ l.length ≠ maxFiles ∨ maxFileBytes < HasLen.len c := by
  obtain ⟨hroot, rfl⟩ := eq_visibleFiles_of_files hl
  rw [GateAgrees, handleEvent_reaches_iff hroot hn hs hf hk hp, fileCount]
  omega

/-- A change of `a` is not pushed from the store of three one-byte files, although the
store is within its limits. -/
theorem three_files_not_pushed : ∃ l, files [ofStr "store"] {} threeFiles = .ok l
    ∧ entry threeFiles [ofStr "store"] (ofStr "a") = some (.file [1])
    ∧ ¬ GateAgrees [ofStr "store"] threeFiles (some [0])
        ⟨.modify, [⟨[ofStr "store"], ofStr "a"⟩]⟩ ⟨[ofStr "store"], ofStr "a"⟩ l.length 1 := by
  refine ⟨[⟨"c", 1⟩, ⟨"b", 1⟩, ⟨"a", 1⟩], rfl, rfl, ?_⟩
  rw [GateAgrees, handleEvent_reaches_iff (c := [1]) (by rfl) (by decide) (by decide) (by rfl)
    (by decide) (by decide)]
  decide

theorem three_files_gate :
    GateAgrees [ofStr "store"] threeFiles (some [0])
        ⟨.modify, [⟨[ofStr "store"], ofStr "a"⟩]⟩ ⟨[ofStr "store"], ofStr "a"⟩ 3 1
      ↔ 3 ≠ maxFiles ∨ maxFileBytes < 1 :=
  push_gate_agrees_iff (l := [⟨"c", 1⟩, ⟨"b", 1⟩, ⟨"a", 1⟩]) (c := [1]) (by rfl) (by decide)
    (by decide) (by rfl) (by decide) (by decide) (some [0])

end Dddatasync
