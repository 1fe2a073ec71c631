import Dddatasync.Auth
import Dddatasync.Library.XorBlock

/-!
The salts of usernames: `derive_key` of `src/auth.rs`.

* `salt_eq`: the salt is the folded name, or that of the underscore if nothing is left of it.
* `SaltClash`: two names whose bytes cancel out to the same salt, read off how often each bit
  is set at each place; `salt_eq_iff`.
* `separated_iff`: exactly when two users get different salts and keys;
  `not_saltClash_of_short`: all names do that fit into the salt.
-/

namespace Dddatasync

open OsString XorBlock

variable {NodeId : Type*}

/-- Nothing is left of a name: every bit of every place is set an even number of times. -/
def Cancels (name : OsString) : Prop := SameParity 32 name []

/-- Two names that fold to the same bytes, where a name of which nothing is left counts as
the underscore. -/
def SaltClash (u v : String) : Prop :=
  SameParity 32 (ofStr u) (ofStr v)
    ∨ Cancels (ofStr u) ∧ SameParity 32 (ofStr v) (ofStr "_")
    ∨ SameParity 32 (ofStr u) (ofStr "_") ∧ Cancels (ofStr v)

/-- Argon2 gives no key to two salts, whatever the passphrase. -/
def Crypto.SaltSensitive (x : Crypto NodeId) : Prop :=
  ∀ passphrase s s' key, x.argon2 passphrase s = some key → x.argon2 passphrase s' = some key →
    s = s'

/-- Two users have different salts, none of them all zero, and with an Argon2 that tells
salts apart no passphrase gives them one device key. -/
def Separated (NodeId : Type*) (u v : String) : Prop :=
  salt u ≠ salt v ∧ (∃ b ∈ salt u, b ≠ 0) ∧ (∃ b ∈ salt v, b ≠ 0)
    ∧ ∀ x : Crypto NodeId, x.SaltSensitive → ∀ passphrase key,
        ¬ (deriveKey x u passphrase = some key ∧ deriveKey x v passphrase = some key)

/-! ### The salt of a name -/

lemma cancels_iff {name : OsString} : Cancels name ↔ fold 32 name = List.replicate 32 0 :=
  fold_eq_iff.symm

/-- The first place of an empty salt is set as an underscore would set it. -/
lemma fold_underscore : fold 32 (ofStr "_") = (List.replicate 32 0).set 0 0x5f := by
  decide

lemma all_zero_iff {name : OsString} : (foldSalt name).all (· == 0) = true ↔ Cancels name := by
  rw [cancels_iff, List.eq_replicate_iff, List.all_eq_true]
  simp only [beq_iff_eq]
  exact ⟨fun h => ⟨length_fold 32 name, h⟩, And.right⟩

/-- The salt is the folded name, or that of the underscore. -/
lemma salt_eq (u : String) :
    salt u = fold 32 (ofStr "_") ∧ Cancels (ofStr u)
      ∨ salt u = fold 32 (ofStr u) ∧ ¬ Cancels (ofStr u) := by
  by_cases h : Cancels (ofStr u)
  · refine .inl ⟨?_, h⟩
    rw [salt, if_pos (all_zero_iff.mpr h), fold_underscore, ← cancels_iff.mp h]
    rfl
  · refine .inr ⟨?_, h⟩
    rw [salt, if_neg (fun hall => h (all_zero_iff.mp hall))]
    rfl

lemma not_cancels_underscore : ¬ Cancels (ofStr "_") := by
  rw [cancels_iff, fold_underscore]
  decide

lemma length_salt (u : String) : (salt u).length = 32 := by
  rcases salt_eq u with ⟨heq, -⟩ | ⟨heq, -⟩ <;> rw [heq, length_fold]

lemma salt_ne_zero (u : String) : ∃ b ∈ salt u, b ≠ 0 := by
  have hne : salt u ≠ List.replicate 32 0 := by
    rcases salt_eq u with ⟨heq, -⟩ | ⟨heq, h⟩
    · rw [heq]
      exact fun h => not_cancels_underscore (cancels_iff.mpr h)
    · rw [heq]
      exact fun hzero => h (cancels_iff.mpr hzero)
  by_contra hall
  push Not at hall
  exact hne (List.eq_replicate_iff.mpr ⟨length_salt u, hall⟩)

/-- **Equal salts** are those of names that clash. -/
theorem salt_eq_iff {u v : String} : salt u = salt v ↔ SaltClash u v := by
  rw [SaltClash, ← fold_eq_iff, ← fold_eq_iff, ← fold_eq_iff]
  rcases salt_eq u with ⟨hu, hcu⟩ | ⟨hu, hcu⟩ <;> rcases salt_eq v with ⟨hv, hcv⟩ | ⟨hv, hcv⟩ <;>
    rw [hu, hv]
  · -- nothing is left of either name
    rw [cancels_iff] at hcu hcv
    simp [hcu, hcv]
  · have hne : fold 32 (ofStr u) ≠ fold 32 (ofStr v) := fun h =>
      hcv (cancels_iff.mpr (h.symm.trans (cancels_iff.mp hcu)))
    simp only [hne, hcu, hcv, true_and, and_false, or_false, false_or, eq_comm]
  · have hne : fold 32 (ofStr u) ≠ fold 32 (ofStr v) := fun h =>
      hcu (cancels_iff.mpr (h.trans (cancels_iff.mp hcv)))
    simp only [hne, hcu, hcv, false_and, and_true, false_or]
  · simp only [hcu, hcv, false_and, and_false, or_false]

/-- **Different users.**  Two users are kept apart if and only if their names do not clash. -/
theorem separated_iff (u v : String) : Separated NodeId u v ↔ ¬ SaltClash u v := by
  constructor
  · rintro ⟨hne, -⟩ hclash
    exact hne (salt_eq_iff.mpr hclash)
  · intro hclash
    have hne : salt u ≠ salt v := fun h => hclash (salt_eq_iff.mp h)
    refine ⟨hne, salt_ne_zero u, salt_ne_zero v, fun x hx passphrase key hkey => hne ?_⟩
    exact hx (ofStr passphrase) (salt u) (salt v) key hkey.1 hkey.2

/-- **Long names.**  A name clashes with the one that has 32 bytes twice in front of it. -/
theorem saltClash_twice_append {w : String} (hw : (ofStr w).length = 32) (u : String) :
    SaltClash u (w ++ w ++ u) := by
  refine .inl (fold_eq_iff.mp ?_)
  rw [ofStr_append, ofStr_append, fold_twice_append hw]

/-- The two names have one salt, so every Argon2 and every passphrase give them one key. -/
theorem bobs_clash :
    let w := "aaaaaaaaaaaaaaaaaaaaaaaaaaaaaaaa"
    "bob" ≠ w ++ w ++ "bob" ∧ salt "bob" = salt (w ++ w ++ "bob")
      ∧ (∀ (x : Crypto Unit) (passphrase : String),
          deriveKey x "bob" passphrase = deriveKey x (w ++ w ++ "bob") passphrase)
      ∧ ¬ Separated Unit "bob" (w ++ w ++ "bob") := by
  intro w
  have hw : (ofStr w).length = 32 := by decide
  have hclash := saltClash_twice_append hw "bob"
  have hsalt := salt_eq_iff.mpr hclash
  refine ⟨?_, hsalt, fun x passphrase => by rw [deriveKey, hsalt, deriveKey], ?_⟩
  · intro h
    have hlen := congrArg (fun s => (ofStr s).length) h
    simp only [ofStr_append, List.length_append, hw] at hlen
    omega
  · exact fun h => h.1 hsalt

/-- An Argon2 whose key is the salt. -/
def saltCrypto : Crypto (List UInt8) where
  argon2 := fun _ s => if h : s.length = 32 then some ⟨s, h⟩ else none
  publicKey := fun key => key.bytes

lemma saltCrypto_sensitive : saltCrypto.SaltSensitive := by
  intro passphrase s s' key hs hs'
  rw [saltCrypto] at hs hs'
  simp only [Option.dite_none_right_eq_some, Option.some.injEq] at hs hs'
  obtain ⟨hlen, rfl⟩ := hs
  obtain ⟨hlen', heq⟩ := hs'
  exact (congrArg SecretKey.bytes heq).symm

/-- Two users share their keys under every Argon2 exactly when their names clash. -/
theorem keys_shared_iff (u v : String) :
    (∀ (x : Crypto (List UInt8)) passphrase, deriveKey x u passphrase = deriveKey x v passphrase)
      ↔ SaltClash u v := by
  constructor
  · intro h
    have hkey : deriveKey saltCrypto u "" = some ⟨salt u, length_salt u⟩ :=
      dif_pos (length_salt u)
    refine salt_eq_iff.mp (saltCrypto_sensitive (ofStr "") _ _ ⟨salt u, length_salt u⟩ hkey ?_)
    exact (h saltCrypto "").symm.trans hkey
  · intro h x passphrase
    rw [deriveKey, deriveKey, salt_eq_iff.mpr h]

/-! ### Names that fit into the salt -/

lemma append_zeros_inj {l l' : List UInt8} {m n : ℕ} (hl : (0 : UInt8) ∉ l) (hl' : (0 : UInt8) ∉ l')
    (h : l ++ List.replicate m 0 = l' ++ List.replicate n 0) : l = l' := by
  have hstrip : ∀ {bytes : List UInt8} (k : ℕ), (0 : UInt8) ∉ bytes →
      (bytes ++ List.replicate k 0).takeWhile (· ≠ 0) = bytes := by
    intro bytes k hb
    rw [List.takeWhile_append_of_pos fun b hmem => by
      rw [decide_eq_true_iff]
      rintro rfl
      exact hb hmem]
    cases k <;> simp [List.replicate_succ]
  rw [← hstrip m hl, h, hstrip n hl']

/-- Different names of 1 to 32 bytes, none of them zero, do not clash. -/
theorem not_saltClash_of_short {u v : String} (hne : u ≠ v) (hu : u ≠ "") (hv : v ≠ "")
    (hulen : (ofStr u).length ≤ 32) (hvlen : (ofStr v).length ≤ 32)
    (hu0 : (0 : UInt8) ∉ ofStr u) (hv0 : (0 : UInt8) ∉ ofStr v) : ¬ SaltClash u v := by
  have hleft : ∀ {w : String}, w ≠ "" → (ofStr w).length ≤ 32 → (0 : UInt8) ∉ ofStr w →
      ¬ Cancels (ofStr w) := by
    intro w hw hlen h0 hcancels
    rw [cancels_iff, fold_eq_append hlen] at hcancels
    have hnil := append_zeros_inj h0 List.not_mem_nil
      (hcancels.trans (List.nil_append _).symm)
    exact hw (ofStr_injective (hnil.trans (by rfl : [] = ofStr "")))
  rw [SaltClash, ← fold_eq_iff, fold_eq_append hulen, fold_eq_append hvlen]
  rintro (h | ⟨h, -⟩ | ⟨-, h⟩)
  · exact hne (ofStr_injective (append_zeros_inj hu0 hv0 h))
  · exact hleft hu hulen hu0 h
  · exact hleft hv hvlen hv0 h

end Dddatasync
