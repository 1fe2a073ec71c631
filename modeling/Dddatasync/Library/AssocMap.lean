import Mathlib.Data.List.AList
import Mathlib.Tactic

/-!
Finite maps with one value type, on top of association lists without duplicate keys.

* `collect`: the entries a selection function picks, in the order of the map, with
  `mem_collect`, the two counting rules `length_collect_erase` and
  `length_collect_insert`, and `collect_perm`, which compares two maps pointwise.
* `filterMap`: update or drop every entry at once, with `lookup_filterMap`.
* `total`: a sum over all entries, with `total_perm`, `total_filterMap` and `sum_keys`.
* `lookup_insert_eq_some`, `lookup_erase_eq_some`: where a value comes from after an update.
* `perm_of_lookup_eq`: two maps with the same lookups have the same entries up to
  order.
-/

/-- A finite map from `α` to `β`. -/
abbrev AssocMap (α β : Type*) := AList (fun _ : α => β)

namespace AssocMap

variable {α β γ : Type*}

/-- The values `f` picks from the entries, in the order of the map. -/
def collect (f : α → β → Option γ) (m : AssocMap α β) : List γ :=
  m.entries.filterMap fun e => f e.1 e.2

/-- Apply `f` to every entry: `some` gives the new value, `none` drops the entry. -/
def filterMap (f : α → β → Option γ) (m : AssocMap α β) : AssocMap α γ :=
  ⟨m.entries.filterMap fun e => (f e.1 e.2).map (Sigma.mk e.1), by
    rw [List.nodupKeys_iff_pairwise]
    refine List.Pairwise.filterMap _ ?_ (List.nodupKeys_iff_pairwise.mp m.nodupKeys)
    rintro ⟨a, b⟩ ⟨a', b'⟩ hne x hx y hy
    obtain ⟨_, _, rfl⟩ := Option.map_eq_some_iff.mp hx
    obtain ⟨_, _, rfl⟩ := Option.map_eq_some_iff.mp hy
    exact hne⟩

/-- The sum of `f` over all entries. -/
def total {M : Type*} [AddCommMonoid M] (f : β → M) (m : AssocMap α β) : M :=
  (m.entries.map fun e => f e.2).sum

lemma total_perm {M : Type*} [AddCommMonoid M] (f : β → M) {m₁ m₂ : AssocMap α β}
    (h : m₁.entries.Perm m₂.entries) : total f m₁ = total f m₂ :=
  (h.map _).sum_eq

/-- The sum after an update, in terms of the entries before. -/
lemma total_filterMap {M : Type*} [AddCommMonoid M] (f : γ → M) (g : α → β → Option γ)
    (m : AssocMap α β) :
    total f (filterMap g m) = (m.entries.map fun e => ((g e.1 e.2).map f).getD 0).sum := by
  rw [total, filterMap]
  simp only
  induction m.entries with
  | nil => rfl
  | cons e es ih =>
      rw [List.map_cons, List.sum_cons, ← ih]
      cases h : g e.1 e.2 with
      | none => rw [List.filterMap_cons_none (by rw [h]; rfl), Option.map_none, Option.getD_none,
          zero_add]
      | some b => rw [List.filterMap_cons_some (by rw [h]; rfl), List.map_cons, List.sum_cons,
          Option.map_some, Option.getD_some]

lemma collect_eq_map (f : α → β → Option γ) (m : AssocMap α β) :
    collect f m = (filterMap f m).entries.map Sigma.snd := by
  rw [collect, filterMap, List.map_filterMap]
  congr 1
  funext e
  cases f e.1 e.2 <;> rfl

variable [DecidableEq α]

lemma mem_entries_iff {m : AssocMap α β} {a : α} {b : β} :
    (⟨a, b⟩ : Sigma fun _ : α => β) ∈ m.entries ↔ m.lookup a = some b :=
  (AList.mem_lookup_iff (s := m) (a := a) (b := b)).symm

/-- After an insertion a key has the new value or, if it is another key, its old one. -/
lemma lookup_insert_eq_some {m : AssocMap α β} {a a' : α} {b b' : β} :
    (m.insert a b).lookup a' = some b' ↔ a' = a ∧ b' = b ∨ a' ≠ a ∧ m.lookup a' = some b' := by
  by_cases h : a' = a
  · subst h
    rw [AList.lookup_insert, Option.some.injEq, eq_comm]
    simp
  · rw [AList.lookup_insert_ne h]
    simp [h]

/-- After an erasure the other keys have their old values. -/
lemma lookup_erase_eq_some {m : AssocMap α β} {a a' : α} {b' : β} :
    (m.erase a).lookup a' = some b' ↔ a' ≠ a ∧ m.lookup a' = some b' := by
  by_cases h : a' = a
  · subst h
    rw [AList.lookup_erase]
    simp
  · rw [AList.lookup_erase_ne h]
    simp [h]

/-- Two maps with the same lookups hold the same entries, up to their order. -/
lemma perm_of_lookup_eq {m₁ m₂ : AssocMap α β} (h : ∀ a, m₁.lookup a = m₂.lookup a) :
    m₁.entries.Perm m₂.entries :=
  List.lookup_ext m₁.nodupKeys m₂.nodupKeys fun a b => by
    have ha := h a
    rw [AList.lookup, AList.lookup] at ha
    rw [ha]

/-- Erasing a present key takes out exactly its entry. -/
lemma perm_cons_erase {m : AssocMap α β} {a : α} {b : β} (h : m.lookup a = some b) :
    m.entries.Perm (⟨a, b⟩ :: (m.erase a).entries) := by
  have hk : a ∈ m.entries.keys := by
    rw [← AList.keys, ← AList.mem_keys, ← AList.lookup_isSome, h]
    rfl
  obtain ⟨b', l₁, l₂, _, hl, he⟩ := List.exists_of_kerase hk
  have hb : b' = b := by
    have hmem : (⟨a, b'⟩ : Sigma fun _ : α => β) ∈ m.entries := by
      rw [hl]
      simp
    have := mem_entries_iff.mp hmem
    rw [h] at this
    exact (Option.some.inj this).symm
  subst hb
  have herase : (m.erase a).entries = l₁ ++ l₂ := he
  rw [herase, hl]
  exact List.perm_middle

/-! ### Selecting entries -/

lemma mem_collect {f : α → β → Option γ} {m : AssocMap α β} {x : γ} :
    x ∈ collect f m ↔ ∃ a b, m.lookup a = some b ∧ f a b = some x := by
  rw [collect, List.mem_filterMap]
  constructor
  · rintro ⟨⟨a, b⟩, he, hf⟩
    exact ⟨a, b, mem_entries_iff.mp he, hf⟩
  · rintro ⟨a, b, hl, hf⟩
    exact ⟨⟨a, b⟩, mem_entries_iff.mpr hl, hf⟩

/-- What a selection picks at one key: `1` or `0`. -/
def picked (f : α → β → Option γ) (m : AssocMap α β) (a : α) : ℕ :=
  (((m.lookup a).bind (f a)).isSome).toNat

/-- Erasing a key drops what the selection picked at it. -/
lemma length_collect_erase (f : α → β → Option γ) (m : AssocMap α β) (a : α) :
    (collect f m).length = (collect f (m.erase a)).length + picked f m a := by
  cases h : m.lookup a with
  | none =>
      have hk : a ∉ m.entries.keys := by
        rw [← AList.keys, ← AList.mem_keys, ← AList.lookup_eq_none]
        exact h
      have herase : (m.erase a).entries = m.entries := List.kerase_of_notMem_keys hk
      simp [collect, picked, h, herase]
  | some b =>
      have hp := ((perm_cons_erase h).filterMap fun e => f e.1 e.2).length_eq
      rw [collect, hp, collect, picked, h, List.filterMap_cons]
      cases hf : f a b <;> simp [hf]

/-- Inserting replaces what the selection picked at the key. -/
lemma length_collect_insert (f : α → β → Option γ) (m : AssocMap α β) (a : α) (b : β) :
    (collect f (m.insert a b)).length + picked f m a
      = (collect f m).length + ((f a b).isSome).toNat := by
  have hins : (collect f (m.insert a b)).length
      = (collect f (m.erase a)).length + ((f a b).isSome).toNat := by
    have herase : (m.erase a).entries = m.entries.kerase a := rfl
    rw [collect, AList.entries_insert, List.filterMap_cons]
    cases hf : f a b <;> simp [collect, herase]
  rw [hins, length_collect_erase f m a]
  omega

omit [DecidableEq α] in
/-- A selection that tells the keys apart picks different things. -/
lemma nodup_map_collect {δ : Type*} {f : α → β → Option γ} {g : γ → δ} {m : AssocMap α β}
    (h : ∀ a b x a' b' x', f a b = some x → f a' b' = some x' → g x = g x' → a = a') :
    ((collect f m).map g).Nodup := by
  rw [collect, List.Nodup, List.pairwise_map]
  refine List.Pairwise.filterMap _ ?_ (List.nodupKeys_iff_pairwise.mp m.nodupKeys)
  rintro ⟨a, b⟩ ⟨a', b'⟩ hne x hx x' hx' heq
  exact hne (h a b x a' b' x' hx hx' heq)

/-! ### Updating and dropping entries -/

@[simp]
lemma lookup_filterMap (f : α → β → Option γ) (m : AssocMap α β) (a : α) :
    (filterMap f m).lookup a = (m.lookup a).bind (f a) := by
  ext b
  rw [← mem_entries_iff, Option.bind_eq_some_iff]
  constructor
  · intro h
    obtain ⟨⟨a', b'⟩, he, hf⟩ := List.mem_filterMap.mp h
    obtain ⟨c, hc, heq⟩ := Option.map_eq_some_iff.mp hf
    obtain ⟨rfl, hcb⟩ := Sigma.mk.inj_iff.mp heq
    exact ⟨b', mem_entries_iff.mp he, by rw [hc, eq_of_heq hcb]⟩
  · rintro ⟨b', hb', hf⟩
    exact List.mem_filterMap.mpr ⟨⟨a, b'⟩, mem_entries_iff.mpr hb', by simp [hf]⟩

/-- Two maps in which the selection picks the same at every key give the same selection up
to order. -/
lemma collect_perm (f : α → β → Option γ) {m₁ m₂ : AssocMap α β}
    (h : ∀ a, (m₁.lookup a).bind (f a) = (m₂.lookup a).bind (f a)) :
    (collect f m₁).Perm (collect f m₂) := by
  rw [collect_eq_map, collect_eq_map]
  have hlookup : ∀ a, (filterMap f m₁).lookup a = (filterMap f m₂).lookup a := by
    intro a
    rw [lookup_filterMap, lookup_filterMap, h a]
  exact (perm_of_lookup_eq hlookup).map Sigma.snd

/-! ### Sums over the entries -/

/-- A sum over the keys that looks the values up is a sum over the entries. -/
lemma sum_keys {M : Type*} [AddCommMonoid M] (f : Option β → M) (m : AssocMap α β) :
    (m.keys.map fun a => f (m.lookup a)).sum = total (fun b => f (some b)) m := by
  rw [AList.keys, List.keys, List.map_map, total]
  refine congrArg List.sum (List.map_congr_left fun e he => ?_)
  rw [Function.comp_apply, mem_entries_iff.mp he]

end AssocMap
