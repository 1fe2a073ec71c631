import Dddatasync.NetworkMoves

/-!
Conflicting writes: what becomes of the newest version of a file.

* `Version`: a content with the time of the write it comes from, which the code never reads.
* `OnClock`: the clock all users share; `NoRollback`, `Resolved`, `LastWriteWins`: what
  last-write-wins asks of a run.
* `InOrder`: an offer that arrives is not older than what came to the device before.
* `lastWriteWins_iff`: a run has the newest write win exactly when all its offers arrive in
  order.
-/

namespace Dddatasync

open Fs OsString Runs

/-- A content, with the time it was written at by a user. -/
structure Version (D : Type*) where
  data : D
  mtime : ℕ
  deriving DecidableEq

instance {D : Type*} [HasLen D] : HasLen (Version D) := ⟨fun v => HasLen.len v.data⟩

variable {ι D NodeId Sock Relay Hash : Type*} [HasLen D] [Fintype ι] [DecidableEq ι]

/-! ### What a run has to do -/

/-- The device `j` holds the version `v` of `f`. -/
def Holds (w : Service NodeId Sock Relay Hash (Version D)) (s : Net ι (Version D)) (j : ι)
    (f : String) (v : Version D) : Prop :=
  entry (s.device j).fs w.root (ofStr f) = some (.file v)

instance [DecidableEq D] (w : Service NodeId Sock Relay Hash (Version D))
    (s : Net ι (Version D)) (j : ι) (f : String) (v : Version D) : Decidable (Holds w s j f v) :=
  inferInstanceAs (Decidable (_ = _))

/-- A write is not older than any version there has been. -/
def OnClock (s : Net ι (Version D)) : Action ι (Version D) → Prop
  | .move _ => True
  | .write _ _ v => ∀ e ∈ s.log, e.2.2.mtime ≤ v.mtime

/-- A pull replaces no version by an older one. -/
def NoRollback (w : Service NodeId Sock Relay Hash (Version D)) (s : Net ι (Version D)) :
    Action ι (Version D) → Prop
  | .move m => ∀ j f u v, startsWithDot f = false → Holds w s j f u →
      Holds w (Net.perform w s (.move m)) j f v → u.mtime ≤ v.mtime
  | .write _ _ _ => True

/-- With no offer in flight, a device that got every version of a file holds the newest. -/
def Resolved (w : Service NodeId Sock Relay Hash (Version D)) (s : Net ι (Version D)) : Prop :=
  s.offers = [] → ∀ j f, startsWithDot f = false →
    (∀ i v, (i, f, v) ∈ s.log → (j, f, v) ∈ s.log) →
    ∀ i v, (i, f, v) ∈ s.log → ∃ u, Holds w s j f u ∧ (j, f, u) ∈ s.log ∧ v.mtime ≤ u.mtime

/-- No pull of the run goes back to an older version, and whenever all offers are delivered
the newest version has won. -/
structure LastWriteWins (w : Service NodeId Sock Relay Hash (Version D)) (s : Net ι (Version D))
    (as : List (Action ι (Version D))) : Prop where
  no_rollback : Along (Net.perform w) (NoRollback w) s as
  resolved : Throughout (Net.perform w) (Resolved w) s as

/-- No version of the file that came to the device before an offer arrives, by a write or by
another offer, is newer than the offered one. -/
def InOrder (w : Service NodeId Sock Relay Hash (Version D)) (s : Net ι (Version D)) :
    Action ι (Version D) → Prop
  | .move (.deliver n io) => ∀ o, s.offers[n]? = some o → Arrives w s o io →
      ∀ v, (o.target, o.name, v) ∈ s.log → v.mtime ≤ o.content.mtime
  | _ => True

/-- The log starts with the files there are. -/
structure Started (w : Service NodeId Sock Relay Hash (Version D)) (s : Net ι (Version D)) :
    Prop where
  ok : Ok w s
  log_iff : ∀ j f v, (j, f, v) ∈ s.log ↔ startsWithDot f = false ∧ Holds w s j f v

/-! ### The newest version -/

/-- Every file is in the log, and none that came to its device is newer. -/
structure Newest (w : Service NodeId Sock Relay Hash (Version D)) (s : Net ι (Version D)) :
    Prop where
  ok : Ok w s
  logged : ∀ j f u, startsWithDot f = false → Holds w s j f u → (j, f, u) ∈ s.log
  newest : ∀ j f v, startsWithDot f = false → (j, f, v) ∈ s.log →
    ∃ u, Holds w s j f u ∧ v.mtime ≤ u.mtime

variable {w : Service NodeId Sock Relay Hash (Version D)} {s s' : Net ι (Version D)}

omit [Fintype ι] [HasLen D] [DecidableEq ι] in
lemma Started.newest (h : Started w s) : Newest w s where
  ok := h.ok
  logged := fun j f u hf hu => (h.log_iff j f u).mpr ⟨hf, hu⟩
  newest := fun j f v _ hv => ⟨v, ((h.log_iff j f v).mp hv).2, le_rfl⟩

omit [Fintype ι] [HasLen D] [DecidableEq ι] in
lemma holds_unique {j : ι} {f : String} {u v : Version D} (hu : Holds w s j f u)
    (hv : Holds w s j f v) : u = v :=
  Node.file.inj (Option.some.inj (hu.symm.trans hv))

omit [Fintype ι] [HasLen D] [DecidableEq ι] in
lemma Quiet.holds_iff (h : Quiet w s s') {j : ι} {f : String} {v : Version D}
    (hf : startsWithDot f = false) : Holds w s' j f v ↔ Holds w s j f v := by
  rw [Holds, Holds, (h.same j).entry_eq _ (visible_ofStr.mpr hf)]

omit [Fintype ι] [HasLen D] [DecidableEq ι] in
lemma Arrival.holds_self {j : ι} {f : String} {v u : Version D} (h : Arrival w s s' j f v) :
    Holds w s' j f u ↔ u = v := by
  rw [Holds, h.placed.entry_self]
  constructor
  · intro he
    exact (Node.file.inj (Option.some.inj he)).symm
  · rintro rfl
    rfl

omit [Fintype ι] [HasLen D] [DecidableEq ι] in
/-- An arrival leaves the other files alone. -/
lemma Arrival.holds_other {i j : ι} {f g : String} {v u : Version D} (h : Arrival w s s' j f v)
    (hg : startsWithDot g = false) (hne : ¬ (i = j ∧ g = f)) :
    Holds w s' i g u ↔ Holds w s i g u := by
  rw [Holds, Holds]
  by_cases hi : i = j
  · subst hi
    have hgf : ofStr g ≠ ofStr f := fun heq => hne ⟨rfl, ofStr_injective heq⟩
    rw [h.placed.entry_ne _ (visible_ofStr.mpr hg) hgf]
  · rw [h.others i hi]

omit [Fintype ι] [HasLen D] [DecidableEq ι] in
lemma Newest.quiet (h : Newest w s) (hok : Ok w s') (hq : Quiet w s s') : Newest w s' where
  ok := hok
  logged := fun j f u hf hu => by
    rw [hq.log]
    exact h.logged j f u hf ((hq.holds_iff hf).mp hu)
  newest := fun j f v hf hv => by
    rw [hq.log] at hv
    obtain ⟨u, hu, hle⟩ := h.newest j f v hf hv
    exact ⟨u, (hq.holds_iff hf).mpr hu, hle⟩

omit [Fintype ι] [HasLen D] in
/-- The newest version stays in place when nothing older comes over it. -/
lemma Newest.arrival {j : ι} {f : String} {v : Version D} (h : Newest w s) (hok : Ok w s')
    (harr : Arrival w s s' j f v) (hle : ∀ u, (j, f, u) ∈ s.log → u.mtime ≤ v.mtime) :
    Newest w s' where
  ok := hok
  logged := fun i g u hg hu => by
    rw [harr.log, List.mem_cons]
    by_cases hself : i = j ∧ g = f
    · obtain ⟨rfl, rfl⟩ := hself
      rw [harr.holds_self] at hu
      exact .inl (by rw [hu])
    · exact .inr (h.logged i g u hg ((harr.holds_other hg hself).mp hu))
  newest := fun i g u hg hu => by
    rw [harr.log, List.mem_cons] at hu
    by_cases hself : i = j ∧ g = f
    · obtain ⟨rfl, rfl⟩ := hself
      refine ⟨v, harr.holds_self.mpr rfl, ?_⟩
      rcases hu with hu | hu
      · rw [(Prod.mk.inj (Prod.mk.inj hu).2).2]
      · exact hle u hu
    · have hu' : (i, g, u) ∈ s.log := hu.resolve_left fun heq =>
        hself ⟨(Prod.mk.inj heq).1, (Prod.mk.inj (Prod.mk.inj heq).2).1⟩
      obtain ⟨x, hx, hlex⟩ := h.newest i g u hg hu'
      exact ⟨x, (harr.holds_other hg hself).mpr hx, hlex⟩

/-! ### One action -/

/-- **One action.**  While the newest versions are in place, a pull goes back to an older one
exactly when its offer comes out of order. -/
lemma noRollback_iff (h : Newest w s) (a : Action ι (Version D)) :
    NoRollback w s a ↔ InOrder w s a := by
  obtain ⟨hq, hno⟩ | ⟨n, io, o, rfl, hoffer, harr, hcame⟩ | ⟨i, f, v, rfl, -⟩ :=
    perform_cases h.ok a
  · -- nothing arrives, so nothing is replaced
    constructor
    · intro _
      cases a with
      | write i f v => trivial
      | move m =>
          cases m with
          | deliver n io => exact fun o hoffer harr => absurd harr (hno n io o rfl hoffer)
          | handle i answer => trivial
          | notify i => trivial
          | finish i => trivial
    · intro _
      cases a with
      | write i f v => trivial
      | move m =>
          intro j f u v hf hu hv
          rw [hq.holds_iff hf] at hv
          obtain rfl := holds_unique hu hv
          exact le_rfl
  · have hshown : startsWithDot o.name = false := visible_ofStr.mp (safeName_visible harr.safe).2
    constructor
    · intro hroll o' hoffer' _ v hv
      obtain rfl := Option.some.inj (hoffer.symm.trans hoffer')
      obtain ⟨u, hu, hle⟩ := h.newest _ _ v hshown hv
      exact hle.trans (hroll _ _ u _ hshown hu (hcame.holds_self.mpr rfl))
    · intro horder j f u v hf hu hv
      by_cases hself : j = o.target ∧ f = o.name
      · obtain ⟨rfl, rfl⟩ := hself
        rw [hcame.holds_self] at hv
        subst hv
        exact horder o hoffer harr u (h.logged _ _ u hf hu)
      · rw [hcame.holds_other hf hself] at hv
        obtain rfl := holds_unique hu hv
        exact le_rfl
  · exact Iff.rfl

lemma Newest.perform {a : Action ι (Version D)} (h : Newest w s) (hclock : OnClock s a)
    (horder : InOrder w s a) : Newest w (Net.perform w s a) := by
  have hok := perform_ok a h.ok
  obtain ⟨hq, -⟩ | ⟨n, io, o, rfl, hoffer, harr, hcame⟩ | ⟨i, f, v, rfl, hcame⟩ :=
    perform_cases h.ok a
  · exact h.quiet hok hq
  · exact h.arrival hok hcame (horder o hoffer harr)
  · exact h.arrival hok hcame fun u hu => hclock _ hu

omit [Fintype ι] [HasLen D] [DecidableEq ι] in
lemma Newest.resolved (h : Newest w s) : Resolved w s := by
  intro _ j f hf hall i v hv
  obtain ⟨u, hu, hle⟩ := h.newest j f v hf (hall i v hv)
  exact ⟨u, hu, h.logged j f u hf hu, hle⟩

/-! ### Runs -/

/-- **When the newest write wins.**  In a run of writes on one clock, whatever the order of
pushes and deliveries, no pull goes back to an older version and the newest version wins,
exactly when every offer that arrives is not older than what came to its device before. -/
theorem lastWriteWins_iff (w : Service NodeId Sock Relay Hash (Version D))
    {s : Net ι (Version D)} (hs : Started w s) {as : List (Action ι (Version D))}
    (hclock : Along (Net.perform w) OnClock s as) :
    LastWriteWins w s as ↔ Along (Net.perform w) (InOrder w) s as := by
  have hiff : Along (Net.perform w) (NoRollback w) s as ↔ Along (Net.perform w) (InOrder w) s as :=
    along_congr (J := Newest w)
      (fun _ a hc hn hr => hn.perform hc ((noRollback_iff hn a).mp hr))
      (fun _ a _ hn => noRollback_iff hn a) hclock hs.newest
  constructor
  · intro h
    exact hiff.mp h.no_rollback
  · intro h
    have hnewest : Throughout (Net.perform w) (Newest w) s as :=
      throughout_of_step (L := fun s a => OnClock s a ∧ InOrder w s a)
        (fun _ _ hl hn => hn.perform hl.1 hl.2)
        (fun done a hpre => ⟨hclock done a hpre, h done a hpre⟩) hs.newest
    exact ⟨hiff.mpr h, fun done hpre => (hnewest done hpre).resolved⟩

/-! ### A late offer -/

/-- The laptop offers its `a` of time 1; before the offer arrives the user of the phone writes
an `a` of time 2. -/
def lateOffer : List (Action Pair (Version (List UInt8))) :=
  [.write .laptop "a" ⟨[1], 1⟩, .move (.handle .laptop (some [.phone])), .move (.notify .laptop),
    .write .phone "a" ⟨[2], 2⟩,
    .move (.deliver 0 { recv := ⟨0, 0⟩, exportStamp := ⟨0, 1⟩, transfer := .exported ⟨[1], 1⟩ })]

/-- The text that stands for the hash of a version. -/
def versionText (v : Version (List UInt8)) : String := bytesText v.data

instance (s : Net ι (Version D)) (a : Action ι (Version D)) : Decidable (OnClock s a) :=
  match a with
  | .move _ => isTrue trivial
  | .write _ _ v => inferInstanceAs (Decidable (∀ e ∈ s.log, e.2.2.mtime ≤ v.mtime))

lemma emptyPair_started : Started (storeService versionText) (emptyPair _) where
  ok := emptyPair_ok versionText
  log_iff := fun j f v => by
    constructor
    · intro h
      exact absurd h List.not_mem_nil
    · rintro ⟨-, hv⟩
      exact absurd ((entry_emptyPair j _).symm.trans hv) (by simp)

/-- **The newer edit is lost.**  The late offer puts the older version over the newer one,
and there it stays. -/
theorem newer_edit_lost : Started (storeService versionText) (emptyPair _)
    ∧ Along (Net.perform (storeService versionText)) OnClock (emptyPair _) lateOffer
    ∧ ¬ Along (Net.perform (storeService versionText)) (NoRollback (storeService versionText))
      (emptyPair _) lateOffer
    ∧ ¬ Throughout (Net.perform (storeService versionText)) (Resolved (storeService versionText))
      (emptyPair _) lateOffer := by
  refine ⟨emptyPair_started, by decide, fun h => ?_, fun h => ?_⟩
  · have hroll := h (lateOffer.take 4) _ List.prefix_rfl .phone "a" ⟨[2], 2⟩ ⟨[1], 1⟩ (by decide)
      (by decide) (by decide)
    exact absurd hroll (by decide)
  · have hlog : (lateOffer.foldl (Net.perform (storeService versionText)) (emptyPair _)).log
        = [(.phone, "a", ⟨[1], 1⟩), (.phone, "a", ⟨[2], 2⟩), (.laptop, "a", ⟨[1], 1⟩)] := by decide
    have hall : ∀ i v, (i, "a", v) ∈ (lateOffer.foldl (Net.perform (storeService versionText))
        (emptyPair _)).log → (.phone, "a", v) ∈ (lateOffer.foldl
        (Net.perform (storeService versionText)) (emptyPair _)).log := by
      intro i v hv
      rw [hlog] at hv ⊢
      simp only [List.mem_cons, Prod.mk.injEq, List.not_mem_nil, or_false, true_and] at hv ⊢
      rcases hv with ⟨-, hv⟩ | ⟨-, hv⟩ | ⟨-, hv⟩
      · exact .inl hv
      · exact .inr (.inl hv)
      · exact .inl hv
    obtain ⟨u, hu, -, hle⟩ := h lateOffer List.prefix_rfl (by decide) .phone "a" (by decide) hall
      .phone ⟨[2], 2⟩ (by rw [hlog]; simp)
    obtain rfl : u = ⟨[1], 1⟩ := holds_unique hu (by decide)
    exact absurd hle (by decide)

theorem lateOffer_wins_iff :
    LastWriteWins (storeService versionText) (emptyPair _) lateOffer
      ↔ Along (Net.perform (storeService versionText)) (InOrder (storeService versionText))
        (emptyPair _) lateOffer :=
  lastWriteWins_iff (storeService versionText) emptyPair_started (by decide)

end Dddatasync
