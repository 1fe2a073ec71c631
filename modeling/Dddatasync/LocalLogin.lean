import Dddatasync.Auth

/-!
Logins one after the other on one device, and what loads after each: `UserIdentity::login`
and `UserIdentity::load` of `src/auth.rs`.

* `logins`: the directory after any number of logins; `enrolled`: the identity that the file
  then holds, `logins_identity`.
* `Agrees`: a login that succeeds can be loaded and repeated, and one that fails changes
  nothing.
* `OneLine`, `Names`: a username that the file keeps, and a file that gives the username with
  the key; `names_oneLine`.
* `login_agrees_iff`: exactly when login and load agree, after any earlier logins.
* `deriveKey_underscore`: two usernames with one key.
-/

namespace Dddatasync

open OsString

variable {NodeId : Type*}

/-- The directory after logins one after the other. -/
def logins (x : Crypto NodeId) (home : Home) (calls : List (String × String)) : Home :=
  calls.foldl (fun home c => (login x c.1 c.2 home).2) home

/-- The identity of the first login whose key could be derived. -/
def enrolled (x : Crypto NodeId) : List (String × String) → Option UserIdentity
  | [] => none
  | c :: calls =>
      match deriveKey x c.1 c.2 with
      | some nodeKey => some ⟨c.1, nodeKey⟩
      | none => enrolled x calls

/-- After a login that succeeds, `load` gives the username and the key of the credentials,
and the same login succeeds again and changes nothing.  A login that fails changes
nothing. -/
def Agrees (x : Crypto NodeId) (username passphrase : String) (home : Home) : Prop :=
  match login x username passphrase home with
  | (.ok _, home') =>
      (∃ identity, load home' = .ok identity ∧ identity.username = username
        ∧ deriveKey x username passphrase = some identity.nodeKey)
      ∧ ∃ again, login x username passphrase home' = (.ok again, home')
  | (.error _, home') => home'.identity = home.identity ∧ load home' = load home

/-- A username that is one line of the file. -/
def OneLine (username : String) : Prop :=
  '\n' ∉ username.toList ∧ username.toList.getLast? ≠ some '\r'

instance (username : String) : Decidable (OneLine username) :=
  inferInstanceAs (Decidable (_ ∧ _))

/-- Where the second line of the file of `writer` is this key, the first is this username. -/
def Names (writer : UserIdentity) (username : String) (key : SecretKey) : Prop :=
  ∀ name keyHex rest, lines (identityContents writer).toList = name :: keyHex :: rest →
    hexDecode (String.ofList keyHex) = .ok key.bytes → name = username.toList

/-! ### What an identity file loads as -/

/-- What the first two lines have to be. -/
lemma parseIdentity_eq_ok {contents : String} {identity : UserIdentity} :
    parseIdentity contents = .ok identity ↔ ∃ keyHex rest,
      lines contents.toList = identity.username.toList :: keyHex :: rest
        ∧ hexDecode (String.ofList keyHex) = .ok identity.nodeKey.bytes := by
  constructor
  · intro h
    rw [parseIdentity] at h
    split at h
    · cases h
    · cases h
    · rename_i username keyHex rest hlines
      split at h
      · cases h
      · rename_i bytes hbytes
        split at h
        · cases h
          exact ⟨keyHex, rest, by rw [hlines, String.toList_ofList], hbytes⟩
        · cases h
  · rintro ⟨keyHex, rest, hlines, hbytes⟩
    simp only [parseIdentity, hlines, hbytes, identity.nodeKey.length_eq, dite_true,
      String.ofList_toList]

lemma loadFromPath_saved (writer : UserIdentity) :
    loadFromPath (saveIdentity writer) = parseIdentity (identityContents writer) := by
  have hmode : ¬ (saveIdentity writer).mode % 0o1000 ≠ 0o600 := fun hne => hne rfl
  rw [loadFromPath, if_neg hmode, saveIdentity, toStr_ofStr]

/-- `Names` is about the identity that the file loads as. -/
lemma names_iff {writer : UserIdentity} {username : String} {key : SecretKey} :
    Names writer username key ↔ ∀ loaded, loadFromPath (saveIdentity writer) = .ok loaded →
      loaded.nodeKey = key → loaded.username = username := by
  constructor
  · rintro h loaded hload rfl
    rw [loadFromPath_saved] at hload
    obtain ⟨keyHex, rest, hlines, hbytes⟩ := parseIdentity_eq_ok.mp hload
    exact String.toList_injective (h _ keyHex rest hlines hbytes)
  · intro h name keyHex rest hlines hbytes
    have hload : loadFromPath (saveIdentity writer) = .ok ⟨String.ofList name, key⟩ := by
      rw [loadFromPath_saved]
      exact parseIdentity_eq_ok.mpr
        ⟨keyHex, rest, by rw [hlines, String.toList_ofList], hbytes⟩
    rw [← h _ hload rfl, String.toList_ofList]

lemma chomp_eq_iff {l : List Char} : chomp l = l ↔ l.getLast? ≠ some '\r' := by
  fun_induction chomp l with
  | case1 => simp
  | case2 => simp
  | case3 c cs hcr ih =>
      cases cs with
      | nil =>
          have hc : c ≠ '\r' := fun h => hcr h rfl
          simp [chomp, hc]
      | cons d cs =>
          rw [List.cons.injEq, and_iff_right rfl, ih, List.getLast?_cons_cons]

/-- No line has a newline in it. -/
lemma not_mem_of_mem_lines {cs line : List Char} (h : line ∈ lines cs) : '\n' ∉ line := by
  fun_induction lines cs generalizing line with
  | case1 => simp at h
  | case2 cs ih | case3 cs ih =>
      rcases List.mem_cons.mp h with rfl | h
      · exact List.not_mem_nil
      · exact ih h
  | case4 c cs hcr hc hnil =>
      obtain rfl := List.mem_singleton.mp h
      exact fun hmem => hc (List.mem_singleton.mp hmem).symm
  | case5 c cs hcr hc l ls heq ih =>
      rcases List.mem_cons.mp h with rfl | h
      · intro hmem
        rcases List.mem_cons.mp hmem with rfl | hmem
        · exact hc rfl
        · exact ih (heq ▸ List.mem_cons_self) hmem
      · exact ih (heq ▸ List.mem_cons_of_mem _ h)

/-- The two lines of a file whose username has no newline. -/
lemma lines_identityContents {writer : UserIdentity} (h : '\n' ∉ writer.username.toList) :
    lines (identityContents writer).toList
      = [chomp writer.username.toList, (hexEncode writer.nodeKey.bytes).toList] := by
  obtain ⟨hn, hr⟩ := hexEncode_not_mem writer.nodeKey.bytes
  have hcontents : (identityContents writer).toList
      = writer.username.toList ++ '\n' :: ((hexEncode writer.nodeKey.bytes).toList ++ ['\n']) := by
    simp [identityContents]
  rw [hcontents, lines_append h, lines_append hn, chomp_eq_self hr]
  rfl

/-- A file whose username has no newline holds the key it was written with, under the name
without a carriage return at its end. -/
lemma names_of_not_mem {writer : UserIdentity} {username : String} {key : SecretKey}
    (h : '\n' ∉ writer.username.toList) :
    Names writer username key ↔
      (writer.nodeKey = key → chomp writer.username.toList = username.toList) := by
  rw [Names, lines_identityContents h]
  constructor
  · rintro hnames rfl
    refine hnames _ _ [] rfl ?_
    rw [String.ofList_toList, hexDecode_hexEncode]
  · intro hnames name keyHex rest hlines hbytes
    rw [List.cons.injEq, List.cons.injEq] at hlines
    obtain ⟨rfl, rfl, -⟩ := hlines
    rw [String.ofList_toList, hexDecode_hexEncode, Except.ok.injEq] at hbytes
    exact hnames (SecretKey.ext hbytes)

/-- **Files of plain usernames.**  Such a file gives the key to its own username only. -/
theorem names_oneLine {writer : UserIdentity} {username : String} {key : SecretKey}
    (h : OneLine writer.username) :
    Names writer username key ↔ (writer.nodeKey = key → writer.username = username) := by
  rw [names_of_not_mem h.1, chomp_eq_iff.mpr h.2]
  exact imp_congr_right fun _ => ⟨fun heq => String.toList_injective heq, congrArg String.toList⟩

/-- An identity comes back from its file exactly if the username is one line. -/
lemma load_saved_iff {identity : UserIdentity} :
    (∃ loaded, loadFromPath (saveIdentity identity) = .ok loaded
        ∧ loaded.username = identity.username) ↔ OneLine identity.username := by
  constructor
  · rintro ⟨loaded, hload, hname⟩
    obtain rfl := loadFromPath_saveIdentity hload hname
    rw [loadFromPath_saved] at hload
    obtain ⟨keyHex, rest, hlines, -⟩ := parseIdentity_eq_ok.mp hload
    have hnl : '\n' ∉ loaded.username.toList :=
      not_mem_of_mem_lines (hlines ▸ List.mem_cons_self)
    rw [lines_identityContents hnl, List.cons.injEq] at hlines
    exact ⟨hnl, chomp_eq_iff.mp hlines.1⟩
  · rintro ⟨hnl, hcr⟩
    refine ⟨identity, ?_, rfl⟩
    rw [loadFromPath_saved]
    exact parseIdentity_eq_ok.mpr ⟨(hexEncode identity.nodeKey.bytes).toList, [],
      by rw [lines_identityContents hnl, chomp_eq_iff.mpr hcr],
      by rw [String.ofList_toList, hexDecode_hexEncode]⟩

/-! ### One login -/

/-- The file after a login: the first that succeeds writes it. -/
lemma login_identity (x : Crypto NodeId) (username passphrase : String) (home : Home) :
    (login x username passphrase home).2.identity
      = home.identity.or
          ((deriveKey x username passphrase).map fun key => saveIdentity ⟨username, key⟩) := by
  rw [login]
  cases hkey : deriveKey x username passphrase with
  | none => simp
  | some key =>
      cases hfile : home.identity with
      | none => simp
      | some file =>
          simp only [Option.some_or]
          split
          · exact hfile
          · split <;> exact hfile

/-- On a new device the username must come back from the file. -/
lemma agrees_new {x : Crypto NodeId} {username passphrase : String} {home : Home}
    (h : home.identity = none) :
    Agrees x username passphrase home ↔
      ∀ key, deriveKey x username passphrase = some key → OneLine username := by
  cases hkey : deriveKey x username passphrase with
  | none => simp [Agrees, login, hkey]
  | some key =>
      have hlogin : login x username passphrase home
          = (.ok ⟨username, key⟩,
              { home with identity := some (saveIdentity ⟨username, key⟩) }) := by
        simp only [login, hkey, h]
      simp only [Agrees, hlogin, load, hkey, Option.some.injEq, forall_eq']
      constructor
      · rintro ⟨⟨loaded, hload, hname, -⟩, -⟩
        exact load_saved_iff.mp ⟨loaded, hload, hname⟩
      · intro hline
        obtain ⟨loaded, hload, hname⟩ : ∃ loaded,
            loadFromPath (saveIdentity ⟨username, key⟩) = .ok loaded ∧ loaded.username = username :=
          load_saved_iff.mpr hline
        obtain rfl := loadFromPath_saveIdentity hload hname
        refine ⟨⟨_, hload, rfl, rfl⟩, ⟨username, key⟩, ?_⟩
        simp only [login, hkey, hload, ne_eq, not_true_eq_false, if_false]

/-- On a device with an identity the file must name the username if it has the key. -/
lemma agrees_saved {x : Crypto NodeId} {username passphrase : String} {home : Home}
    {writer : UserIdentity} (h : home.identity = some (saveIdentity writer)) :
    Agrees x username passphrase home ↔
      ∀ key, deriveKey x username passphrase = some key → Names writer username key := by
  cases hkey : deriveKey x username passphrase with
  | none => simp [Agrees, login, hkey]
  | some key =>
      simp only [Option.some.injEq, forall_eq', names_iff]
      cases hload : loadFromPath (saveIdentity writer) with
      | error e => simp [Agrees, login, hkey, h, hload]
      | ok loaded =>
          simp only [Except.ok.injEq, forall_eq']
          by_cases heq : loaded.nodeKey = key
          · have hlogin : login x username passphrase home = (.ok ⟨username, key⟩, home) := by
              simp only [login, hkey, h, hload, heq, ne_eq, not_true_eq_false, if_false]
            simp only [Agrees, hlogin, load, h, hload, hkey, Except.ok.injEq, exists_eq_left',
              Option.some.injEq, heq, and_true, forall_const, Prod.mk.injEq]
            exact ⟨And.left, fun hname => ⟨hname, _, rfl⟩⟩
          · have hne : loaded.nodeKey.bytes ≠ key.bytes := fun hb => heq (SecretKey.ext hb)
            simp [Agrees, login, hkey, h, hload, hne, heq]

/-! ### Logins one after the other -/

/-- The file after any number of logins. -/
lemma logins_identity (x : Crypto NodeId) (home : Home) (calls : List (String × String)) :
    (logins x home calls).identity
      = home.identity.or ((enrolled x calls).map saveIdentity) := by
  induction calls generalizing home with
  | nil => simp [logins, enrolled]
  | cons c calls ih =>
      rw [logins, List.foldl_cons]
      refine (ih _).trans ?_
      rw [login_identity, Option.or_assoc]
      cases hkey : deriveKey x c.1 c.2 <;> simp [enrolled, hkey]

/-- **Login and load.**  After any logins on a new device, a further login agrees with `load`
and with its own repetition if and only if its key cannot be derived, or the file gives that
key to no other username; without a file, the username must be one line of it. -/
theorem login_agrees_iff (x : Crypto NodeId) (token : Option OsString)
    (earlier : List (String × String)) (username passphrase : String) :
    Agrees x username passphrase (logins x ⟨none, token⟩ earlier) ↔
      ∀ key, deriveKey x username passphrase = some key →
        match enrolled x earlier with
        | none => OneLine username
        | some writer => Names writer username key := by
  have hfile := logins_identity x ⟨none, token⟩ earlier
  rw [Option.none_or] at hfile
  cases henrolled : enrolled x earlier with
  | none => exact agrees_new (by rw [hfile, henrolled]; rfl)
  | some writer => exact agrees_saved (by rw [hfile, henrolled]; rfl)

/-- **Logins over the file of another.**  Where the file was written under a username that is
one line of it, a login agrees if and only if it derives another key or has that username. -/
theorem login_agrees_iff_oneLine (x : Crypto NodeId) (token : Option OsString)
    (earlier : List (String × String)) (username passphrase : String) {writer : UserIdentity}
    (henrolled : enrolled x earlier = some writer) (hline : OneLine writer.username) :
    Agrees x username passphrase (logins x ⟨none, token⟩ earlier) ↔
      (deriveKey x username passphrase = some writer.nodeKey → writer.username = username) := by
  have hfile := logins_identity x ⟨none, token⟩ earlier
  rw [Option.none_or, henrolled] at hfile
  simp only [agrees_saved hfile, names_oneLine hline]
  exact ⟨fun h hkey => h _ hkey rfl, fun h key hkey heq => h (heq ▸ hkey)⟩

/-- An underscore stands for the salt of no username, so it has the salt of the empty one. -/
lemma deriveKey_underscore (x : Crypto NodeId) (passphrase : String) :
    deriveKey x "" passphrase = deriveKey x "_" passphrase := by
  have hsalt : salt "" = salt "_" := by decide
  rw [deriveKey, hsalt, deriveKey]

/-- Keys that begin with passphrase and salt, for runs on fixed inputs. -/
def echoCrypto : Crypto String where
  argon2 := fun passphrase salt =>
    some ⟨((passphrase ++ salt).rightpad 32 0).take 32, by
      simp only [List.length_take, List.rightpad, List.length_append, List.length_replicate]
      omega⟩
  publicKey := fun key => hexEncode key.bytes

/-- A carriage return at the end of a username is lost in the file; and the empty username
logs in where the file belongs to the underscore. -/
theorem login_load_differ :
    ¬ Agrees echoCrypto "alice\r" "pw" {}
      ∧ ¬ Agrees echoCrypto "" "pw" (logins echoCrypto {} [("_", "pw")]) := by
  constructor
  · rw [agrees_new rfl]
    exact fun h => absurd (h _ rfl) (by decide)
  · rw [login_agrees_iff_oneLine echoCrypto none [("_", "pw")] "" "pw" rfl (by decide)]
    exact fun h => absurd (h (deriveKey_underscore echoCrypto "pw")) (by decide)

end Dddatasync
