import Dddatasync.Library.OsString

/-!
The identity of a device: `src/auth.rs`.

* `SecretKey`; `foldSalt`, `deriveKey`: the key from username and passphrase, with Argon2
  and the public key as parameters (`Crypto`).
* `hexEncode`, `hexDecode`, `lines`: the format of the identity file; `saveIdentity`,
  `loadFromPath`.
* `login`, `load`; `hexDecode_hexEncode`; `load_login`: after a login that succeeded, an
  identity that loads under the same username has the key derived from the credentials.
-/

namespace Dddatasync

open OsString

/-! ### Keys -/

/-- A secret key of 32 bytes. -/
@[ext]
structure SecretKey where
  bytes : List UInt8
  length_eq : bytes.length = 32
  deriving DecidableEq

/-- Argon2id with the parameters of `derive_key`, on passphrase and salt, and the public key
of a secret key. -/
structure Crypto (NodeId : Type*) where
  argon2 : List UInt8 → List UInt8 → Option SecretKey
  publicKey : SecretKey → NodeId

/-- The loop over the username: byte `i` is added to place `i % 32`. -/
def foldSalt (name : List UInt8) : List UInt8 :=
  name.zipIdx.foldl (fun salt b => salt.modify (b.2 % 32) (· ^^^ b.1)) (List.replicate 32 0)

/-- The salt of a username; it is never all zero. -/
def salt (username : String) : List UInt8 :=
  let folded := foldSalt (ofStr username)
  if folded.all (· == 0) then folded.set 0 0x5f else folded

variable {NodeId : Type*}

/-- `derive_key`. -/
def deriveKey (x : Crypto NodeId) (username passphrase : String) : Option SecretKey :=
  x.argon2 (ofStr passphrase) (salt username)

/-! ### The identity file -/

/-- A byte as two lower-case digits. -/
def hexByte (b : UInt8) : List Char :=
  [Nat.digitChar (b.toNat / 16), Nat.digitChar (b.toNat % 16)]

/-- `hex_encode`. -/
def hexEncode (bytes : List UInt8) : String := String.ofList (bytes.flatMap hexByte)

/-- The value of a hexadecimal digit of either case, from its byte. -/
def hexValue (b : UInt8) : Option UInt8 :=
  if 0x30 ≤ b ∧ b ≤ 0x39 then some (b - 0x30)
  else if 0x61 ≤ b ∧ b ≤ 0x66 then some (b - 0x61 + 10)
  else if 0x41 ≤ b ∧ b ≤ 0x46 then some (b - 0x41 + 10)
  else none

/-- `u8::from_str_radix(_, 16)` on two bytes: a leading `+` is skipped. -/
def fromHex (a b : UInt8) : Option UInt8 :=
  if a = 0x2b then hexValue b
  else
    match hexValue a, hexValue b with
    | some x, some y => some (x * 16 + y)
    | _, _ => none

/-- How `hex_decode` ends badly; slicing inside a character panics. -/
inductive HexError where
  | oddLength
  | invalid (offset : ℕ)
  | panic
  deriving DecidableEq, Repr

/-- A continuation byte of UTF-8, where no slice may begin or end. -/
def isContinuation (b : UInt8) : Bool := decide (0x80 ≤ b ∧ b < 0xC0)

/-- The loop of `hex_decode` over the byte pairs, from `offset` on. -/
def hexPairs : ℕ → List UInt8 → Except HexError (List UInt8)
  | offset, a :: b :: rest =>
      if (rest.head?.map isContinuation).getD false then .error .panic
      else
        match fromHex a b with
        | none => .error (.invalid offset)
        | some v =>
            match hexPairs (offset + 2) rest with
            | .error e => .error e
            | .ok vs => .ok (v :: vs)
  | _, _ => .ok []

/-- `hex_decode`. -/
def hexDecode (s : String) : Except HexError (List UInt8) :=
  if (ofStr s).length % 2 ≠ 0 then .error .oddLength else hexPairs 0 (ofStr s)

/-- `str::lines`: a line ends with a newline, which may follow a carriage return. -/
def lines : List Char → List (List Char)
  | [] => []
  | '\r' :: '\n' :: cs => [] :: lines cs
  | '\n' :: cs => [] :: lines cs
  | c :: cs =>
      match lines cs with
      | [] => [[c]]
      | l :: ls => (c :: l) :: ls

/-- A file with its permission bits. -/
structure IdentityFile where
  mode : ℕ
  contents : OsString
  deriving DecidableEq

/-- `UserIdentity`. -/
structure UserIdentity where
  username : String
  nodeKey : SecretKey
  deriving DecidableEq

/-- Why an identity cannot be had. -/
inductive AuthError where
  | kdf
  | stat
  | permissions (mode : ℕ)
  | notUtf8
  | noUsername
  | noKey
  | badHex (e : HexError)
  | keyLength
  | conflict
  deriving DecidableEq, Repr

/-- The contents that `save_identity` writes. -/
def identityContents (identity : UserIdentity) : String :=
  identity.username ++ "\n" ++ hexEncode identity.nodeKey.bytes ++ "\n"

/-- `save_identity`: the file it leaves. -/
def saveIdentity (identity : UserIdentity) : IdentityFile :=
  ⟨0o600, ofStr (identityContents identity)⟩

/-- The two lines of an identity file as an identity. -/
def parseIdentity (contents : String) : Except AuthError UserIdentity :=
  match lines contents.toList with
  | [] => .error .noUsername
  | [_] => .error .noKey
  | username :: keyHex :: _ =>
      match hexDecode (String.ofList keyHex) with
      | .error e => .error (.badHex e)
      | .ok bytes =>
          if h : bytes.length = 32 then .ok ⟨String.ofList username, ⟨bytes, h⟩⟩
          else .error .keyLength

/-- `load_from_path`. -/
def loadFromPath (file : IdentityFile) : Except AuthError UserIdentity :=
  if file.mode % 0o1000 ≠ 0o600 then .error (.permissions (file.mode % 0o1000))
  else
    match toStr file.contents with
    | none => .error .notUtf8
    | some contents => parseIdentity contents

/-- The dot files of a device that the client keeps. -/
structure Home where
  identity : Option IdentityFile := none
  token : Option OsString := none
  deriving DecidableEq

/-- `UserIdentity::login`. -/
def login (x : Crypto NodeId) (username passphrase : String) (home : Home) :
    Except AuthError UserIdentity × Home :=
  match deriveKey x username passphrase with
  | none => (.error .kdf, home)
  | some nodeKey =>
      let identity : UserIdentity := ⟨username, nodeKey⟩
      match home.identity with
      | some file =>
          match loadFromPath file with
          | .error e => (.error e, home)
          | .ok existing =>
              if existing.nodeKey.bytes ≠ identity.nodeKey.bytes then (.error .conflict, home)
              else (.ok identity, home)
      | none => (.ok identity, { home with identity := some (saveIdentity identity) })

/-- `UserIdentity::load`. -/
def load (home : Home) : Except AuthError UserIdentity :=
  match home.identity with
  | none => .error .stat
  | some file => loadFromPath file

/-- `UserIdentity::node_id`. -/
def UserIdentity.nodeId (x : Crypto NodeId) (identity : UserIdentity) : NodeId :=
  x.publicKey identity.nodeKey

/-! ### Hexadecimal -/

lemma digitChar_lower {d : ℕ} (h : d < 16) :
    (Nat.digitChar d).toNat < 0x80 ∧ Nat.digitChar d ≠ '\n' ∧ Nat.digitChar d ≠ '\r'
      ∧ isContinuation (UInt8.ofNat (Nat.digitChar d).toNat) = false
      ∧ UInt8.ofNat (Nat.digitChar d).toNat ≠ 0x2b
      ∧ hexValue (UInt8.ofNat (Nat.digitChar d).toNat) = some (UInt8.ofNat d) := by
  interval_cases d <;> decide

lemma mem_hexEncode {bytes : List UInt8} {c : Char} (h : c ∈ (hexEncode bytes).toList) :
    ∃ d < 16, c = Nat.digitChar d := by
  rw [hexEncode, String.toList_ofList, List.mem_flatMap] at h
  obtain ⟨b, -, hc⟩ := h
  have hb := b.toNat_lt
  simp only [hexByte, List.mem_cons, List.not_mem_nil, or_false] at hc
  rcases hc with rfl | rfl
  · exact ⟨b.toNat / 16, by omega, rfl⟩
  · exact ⟨b.toNat % 16, by omega, rfl⟩

/-- The two digits of a byte, as bytes. -/
def hexCode (b : UInt8) : List UInt8 :=
  [UInt8.ofNat (Nat.digitChar (b.toNat / 16)).toNat,
    UInt8.ofNat (Nat.digitChar (b.toNat % 16)).toNat]

lemma ofStr_hexEncode (bytes : List UInt8) : ofStr (hexEncode bytes) = bytes.flatMap hexCode := by
  rw [ofStr, hexEncode, String.toList_ofList, List.flatMap_assoc]
  refine List.flatMap_congr fun b _ => ?_
  have hb := b.toNat_lt
  have hhigh := (digitChar_lower (d := b.toNat / 16) (by omega)).1
  have hlow := (digitChar_lower (d := b.toNat % 16) (by omega)).1
  simp [hexByte, hexCode, encodeChar_ascii hhigh, encodeChar_ascii hlow]

lemma fromHex_hexCode (b : UInt8) :
    fromHex (UInt8.ofNat (Nat.digitChar (b.toNat / 16)).toNat)
      (UInt8.ofNat (Nat.digitChar (b.toNat % 16)).toNat) = some b := by
  have hb := b.toNat_lt
  obtain ⟨-, -, -, -, hplus, hhigh⟩ := digitChar_lower (d := b.toNat / 16) (by omega)
  obtain ⟨-, -, -, -, -, hlow⟩ := digitChar_lower (d := b.toNat % 16) (by omega)
  rw [fromHex, if_neg hplus, hhigh, hlow]
  refine congrArg some (UInt8.toNat_inj.mp ?_)
  rw [UInt8.toNat_add, UInt8.toNat_mul, UInt8.toNat_ofNat', UInt8.toNat_ofNat']
  simp only [UInt8.reduceToNat]
  omega

lemma hexPairs_hexCode (offset : ℕ) (bytes : List UInt8) :
    hexPairs offset (bytes.flatMap hexCode) = .ok bytes := by
  induction bytes generalizing offset with
  | nil => rfl
  | cons b bytes ih =>
      rw [List.flatMap_cons, hexCode, List.cons_append, List.cons_append, List.nil_append,
        hexPairs, ih, fromHex_hexCode]
      -- what follows is empty or begins with a digit, so the slice ends at a character
      cases bytes with
      | nil => rfl
      | cons c bytes =>
          have hc := c.toNat_lt
          have := (digitChar_lower (d := c.toNat / 16) (by omega)).2.2.2.1
          simp [hexCode, this]

/-- **`hex_decode` undoes `hex_encode`.** -/
theorem hexDecode_hexEncode (bytes : List UInt8) : hexDecode (hexEncode bytes) = .ok bytes := by
  have heven : (bytes.flatMap hexCode).length = 2 * bytes.length := by
    induction bytes with
    | nil => rfl
    | cons b bytes ih =>
        rw [List.flatMap_cons, List.length_append, ih, List.length_cons]
        simp only [hexCode, List.length_cons, List.length_nil]
        omega
  rw [hexDecode, ofStr_hexEncode, heven, if_neg (by omega), hexPairs_hexCode]

/-! ### Lines -/

/-- A line without the carriage return at its end. -/
def chomp : List Char → List Char
  | [] => []
  | ['\r'] => []
  | c :: cs => c :: chomp cs

lemma length_chomp_le (l : List Char) : (chomp l).length ≤ l.length := by
  fun_induction chomp l <;> simp_all

lemma chomp_eq_self {l : List Char} (h : '\r' ∉ l) : chomp l = l := by
  fun_induction chomp l <;> simp_all

/-- The first line, up to the first newline. -/
lemma lines_append {line : List Char} (h : '\n' ∉ line) (rest : List Char) :
    lines (line ++ '\n' :: rest) = chomp line :: lines rest := by
  fun_induction chomp line with
  | case1 => rfl
  | case2 => rfl
  | case3 c cs hcr ih =>
      rw [List.mem_cons, not_or] at h
      specialize ih h.2
      rw [List.cons_append, lines, ih]
      · -- a carriage return before the newline would end the line
        rintro ds rfl hds
        cases cs with
        | nil => exact hcr rfl rfl
        | cons d cs =>
            rw [List.cons_append, List.cons.injEq] at hds
            exact h.2 (hds.1 ▸ List.mem_cons_self)
      · exact fun hc => h.1 hc.symm

/-! ### Login and load -/

lemma hexEncode_not_mem (bytes : List UInt8) :
    '\n' ∉ (hexEncode bytes).toList ∧ '\r' ∉ (hexEncode bytes).toList := by
  constructor
  · intro h
    obtain ⟨d, hd, heq⟩ := mem_hexEncode h
    exact (digitChar_lower hd).2.1 heq.symm
  · intro h
    obtain ⟨d, hd, heq⟩ := mem_hexEncode h
    exact (digitChar_lower hd).2.2.1 heq.symm

lemma parseIdentity_username {contents : String} {identity : UserIdentity}
    (h : parseIdentity contents = .ok identity) :
    (lines contents.toList).head? = some identity.username.toList := by
  rw [parseIdentity] at h
  split at h
  · cases h
  · cases h
  · rename_i name key rest hlines
    split at h
    · cases h
    · split at h
      · cases h
        rw [hlines, List.head?_cons, String.toList_ofList]
      · cases h

/-- What `load_from_path` makes of a file `save_identity` wrote, when it finds the username:
the identity itself.  A username with a newline in it comes back cut. -/
lemma loadFromPath_saveIdentity {identity loaded : UserIdentity}
    (h : loadFromPath (saveIdentity identity) = .ok loaded)
    (hname : loaded.username = identity.username) : loaded = identity := by
  obtain ⟨name, key⟩ := identity
  have hmode : ¬ (saveIdentity ⟨name, key⟩).mode % 0o1000 ≠ 0o600 := fun hne => hne rfl
  rw [loadFromPath, if_neg hmode, saveIdentity, toStr_ofStr] at h
  obtain ⟨hn, hr⟩ := hexEncode_not_mem key.bytes
  have hcontents : (identityContents ⟨name, key⟩).toList
      = name.toList ++ '\n' :: ((hexEncode key.bytes).toList ++ '\n' :: []) := by
    simp [identityContents]
  by_cases hnl : '\n' ∈ name.toList
  · obtain ⟨first, rest, heq, hfirst⟩ := List.eq_append_cons_of_mem hnl
    have hhead := parseIdentity_username h
    rw [hcontents, heq, List.append_assoc, List.cons_append, lines_append hfirst,
      List.head?_cons, Option.some.injEq, hname, heq] at hhead
    have hle := length_chomp_le first
    have hlen := congrArg List.length hhead
    rw [List.length_append, List.length_cons] at hlen
    omega
  · have hlines : lines (identityContents ⟨name, key⟩).toList
        = [chomp name.toList, (hexEncode key.bytes).toList] := by
      rw [hcontents, lines_append hnl, lines_append hn, chomp_eq_self hr]
      rfl
    simp only [parseIdentity, hlines, String.ofList_toList, hexDecode_hexEncode, key.length_eq,
      dite_true] at h
    cases h
    exact congrArg (UserIdentity.mk · key) hname

/-- **Key of an enrolled device.** After a `login` that succeeded, whatever identity loads
under the same username has the key derived from the credentials. -/
theorem load_login (x : Crypto NodeId) {username passphrase : String} {home home' : Home}
    {identity loaded : UserIdentity}
    (h : login x username passphrase home = (.ok identity, home'))
    (hload : load home' = .ok loaded) (hname : loaded.username = username) :
    deriveKey x username passphrase = some loaded.nodeKey := by
  rw [login] at h
  split at h
  · cases h
  · rename_i nodeKey hkey
    rw [hkey]
    cases hfile : home.identity with
    | some file =>
        simp only [hfile] at h
        split at h
        · cases h
        · rename_i existing hexisting
          split at h
          · cases h
          · rename_i heq
            cases h
            rw [load, hfile] at hload
            have hsame : existing = loaded := by
              simpa [hexisting] using hload
            rw [ne_eq, not_not, hsame] at heq
            exact congrArg some (SecretKey.ext heq.symm)
    | none =>
        simp only [hfile] at h
        cases h
        rw [load] at hload
        rw [loadFromPath_saveIdentity hload hname]

end Dddatasync
