import NasuaOS.Libc.Strings
import Mathlib.Data.List.Nodup

/-!
# Account database

`src/kernel_64bit/src/system/authentication/authentication.cpp:22–38,88–160,225–303,357–471`. The
accounts and their text form: one line for the version, one for the login switch, one for the
account that logs in by itself, then one line for each account. Text is the bytes before its
terminator, so `strcmp` is equality.
-/

namespace NasuaOS.Authentication

/-- A byte array of the source. -/
abbrev FixedBytes (size : Nat) : Type := Vector UInt8 size

open Base Libc List

/-- `MAX_USERS`. -/
def maxUsers : Nat := 16

/-- `USERNAME_CAPACITY`. -/
def usernameCapacity : Nat := 16

/-- `PASSWORD_CAPACITY`. -/
def passwordCapacity : Nat := 64

/-- `SALT_SIZE`. -/
def saltSize : Nat := 16

/-- Random bytes that make equal passwords differ. -/
abbrev Salt : Type := FixedBytes saltSize

/-- `HASH_SIZE`. -/
def hashSize : Nat := 32

/-- What is kept of a password. -/
abbrev Hash : Type := FixedBytes hashSize

/-- `DATABASE_CAPACITY`. -/
def databaseCapacity : Nat := 4096

/-- The capacity of `line` in `parse_database`. -/
def lineCapacity : Nat := 128

/-- A string in a buffer: its bytes and terminator fit. -/
def Text (capacity : Nat) := { s : Bytes // s.length < capacity }
  deriving DecidableEq

namespace Text

variable {capacity : Nat}

/-- Copy a string whose length was checked. -/
def ofList? (s : Bytes) : Option (Text capacity) :=
  if h : s.length < capacity then some ⟨s, h⟩ else none

/-- Append a character where it fits. -/
def push? (t : Text capacity) (c : UInt8) : Option (Text capacity) := ofList? (t.val ++ [c])

/-- Drop the last character. -/
def dropLast (t : Text capacity) : Text capacity :=
  ⟨t.val.dropLast, by have := t.property; rw [length_dropLast]; omega⟩

end Text

/-- `char[USERNAME_CAPACITY]`. -/
abbrev Username := Text usernameCapacity

/-- `char[PASSWORD_CAPACITY]`. -/
abbrev Password := Text passwordCapacity

/-- An empty name buffer. -/
def noName : Username := ⟨[], by decide⟩

/-- An empty password buffer. -/
def noPassword : Password := ⟨[], by decide⟩

/-- The name that administrator rights are tied to. -/
def root : Username := ⟨ascii ['r', 'o', 'o', 't'], by decide⟩

/-- The name of the other default account. -/
def user : Username := ⟨ascii ['u', 's', 'e', 'r'], by decide⟩

/-- `account_t`. -/
structure Account where
  name : Username
  salt : Salt
  passwordHash : Hash
  administrator : Bool
  deriving DecidableEq

/-- The characters of a username. -/
def usernameCharacter (c : UInt8) : Bool :=
  (97 ≤ c && c ≤ 122) || (65 ≤ c && c ≤ 90) || (48 ≤ c && c ≤ 57) || c == 95 || c == 45

/-- `valid_username` on a name that fits; a longer one is refused. -/
def validUsername (name : Username) : Bool := name.val != [] && name.val.all usernameCharacter

/-- The username in a longer buffer. -/
def username (s : Bytes) : Option Username :=
  (Text.ofList? s).filter validUsername

/-- `valid_password`. -/
def validPassword (password : Password) : Bool := decide (0 < password.val.length)

/-- `find_account`; `none` is the index −1. -/
def findAccount (accounts : List Account) (name : Username) : Option Nat :=
  accounts.findIdx? fun a => a.name == name

/-- `is_administrator`: the flag and the name. -/
def isAdministrator (accounts : List Account) (index : Option Nat) : Bool :=
  match index.bind fun i => accounts[i]? with
  | none => false
  | some a => a.administrator && a.name == root

/-- What the database file holds besides the accounts, and the accounts. -/
structure Database where
  loginEnabled : Bool
  automaticLogin : Username
  accounts : List Account
  deriving DecidableEq

/-- `hex_digit`. -/
def hexDigit (value : UInt8) : UInt8 := if value < 10 then 48 + value else 97 + value - 10

/-- `hex_value`; `none` is −1. -/
def hexValue (c : UInt8) : Option UInt8 :=
  if 48 ≤ c ∧ c ≤ 57 then some (c - 48)
  else if 97 ≤ c ∧ c ≤ 102 then some (c - 97 + 10)
  else if 65 ≤ c ∧ c ≤ 70 then some (c - 65 + 10)
  else none

/-- The digits `append_hex` writes. -/
def hexText (bytes : Bytes) : Bytes :=
  bytes.flatMap fun (b : UInt8) => [hexDigit (b >>> 4), hexDigit (b &&& 15)]

/-- `'0'` or `'1'`. -/
def flagText (flag : Bool) : Bytes := if flag then [49] else [48]

/-- One line of `serialize_database`. -/
def accountLine (a : Account) : Bytes :=
  a.name.val ++ [124] ++ flagText a.administrator ++ [124] ++ hexText a.salt.toList ++ [124] ++
    hexText a.passwordHash.toList ++ [10]

/-- `serialize_database`: nothing when the text and its terminator do not fit. -/
def serializeDatabase (db : Database) : Option Bytes :=
  let text := ascii ['N', 'A', 'S', 'U', 'A', 'U', 'T', 'H', '2', '\n'] ++
    flagText db.loginEnabled ++ [10] ++ db.automaticLogin.val ++ [10] ++
    db.accounts.flatMap accountLine
  if text.length < databaseCapacity then some text else none

/-- `parse_line`: the line as a string, and the data behind it. -/
def parseLine (data : Bytes) : Option (Bytes × Bytes) :=
  let line := data.takeWhile (· != 10)
  if line.length < lineCapacity ∧ line.length < data.length then
    some (line.takeWhile (· != 0), data.drop (line.length + 1))
  else none

/-- Cut a string at the first `|`, as the calls of `find_character` do. -/
def cutField (text : Bytes) : Option (Bytes × Bytes) :=
  let field := text.takeWhile (· != 124)
  if field.length < text.length then some (field, text.drop (field.length + 1)) else none

/-- `decode_hex`. -/
def decodeHex : (size : Nat) → Bytes → Option (FixedBytes size)
  | 0, [] => some #v[]
  | size + 1, high :: low :: text => do
    let h ← hexValue high
    let l ← hexValue low
    let rest ← decodeHex size text
    some ((#v[h <<< 4 ||| l] ++ rest).cast (Nat.add_comm 1 size))
  | _, _ => none

/-- The account on one line of the file. `authentication.cpp:424–453`. -/
def parseAccount (accounts : List Account) (line : Bytes) : Option Account := do
  let (nameText, first) ← cutField line
  let (flag, second) ← cutField first
  let (saltText, hashText) ← cutField second
  let name ← username nameText
  if (flag = [48] ∨ flag = [49]) ∧ findAccount accounts name = none then
    let salt ← decodeHex saltSize saltText
    let passwordHash ← decodeHex hashSize hashText
    some ⟨name, salt, passwordHash, flag == [49]⟩
  else none

/-- The loop over the account lines; `fuel` bounds the lines, each of which takes a byte. -/
def parseAccounts : Nat → List Account → Bytes → Option (List Account × Bytes)
  | 0, accounts, data => some (accounts, data)
  | fuel + 1, accounts, data =>
    if data = [] ∨ maxUsers ≤ accounts.length then some (accounts, data)
    else do
      let (line, rest) ← parseLine data
      if line = [] then parseAccounts fuel accounts rest
      else
        let a ← parseAccount accounts line
        parseAccounts fuel (accounts ++ [a]) rest

/-- The version line, and whether it calls for a migration. -/
def parseVersion (line : Bytes) : Option Bool :=
  if line = ascii ['N', 'A', 'S', 'U', 'A', 'U', 'T', 'H', '1'] then some true
  else if line = ascii ['N', 'A', 'S', 'U', 'A', 'U', 'T', 'H', '2'] then some false
  else none

/-- `parse_database`: the database and `needs_migration`. -/
def parseDatabase (data : Bytes) : Option (Database × Bool) := do
  let (version, data) ← parseLine data
  let migration ← parseVersion version
  let (enabled, data) ← parseLine data
  if enabled = [48] ∨ enabled = [49] then
    let (automaticText, data) ← parseLine data
    let automatic ← username automaticText
    let (accounts, rest) ← parseAccounts data.length [] data
    if rest = [] ∧ accounts ≠ [] ∧ (findAccount accounts automatic).isSome = true ∧
        accounts.any (·.administrator) = true then
      some (⟨!migration && enabled == [49], automatic, accounts⟩, migration)
    else none
  else none

/-- Every account has a name of its own. -/
def DistinctNames (accounts : List Account) : Prop := (accounts.map (·.name)).Nodup

variable {accounts : List Account} {data : Bytes} {db : Database} {migration : Bool}

/-- No account has the name. -/
theorem findAccount_eq_none {name : Username} :
    findAccount accounts name = none ↔ ∀ a ∈ accounts, a.name ≠ name := by
  simp [findAccount, findIdx?_eq_none_iff]

/-- An account that was found has the name. -/
theorem findAccount_eq_some {name : Username} {i : Nat} (h : findAccount accounts name = some i) :
    ∃ a, accounts[i]? = some a ∧ a.name = name := by
  rw [findAccount, findIdx?_eq_some_iff_getElem] at h
  obtain ⟨hi, hname, -⟩ := h
  exact ⟨accounts[i], getElem?_eq_getElem hi, by simpa using hname⟩

/-- A new account at the end keeps names distinct when its name is not taken. -/
theorem DistinctNames.append (h : DistinctNames accounts) {a : Account}
    (hfresh : findAccount accounts a.name = none) : DistinctNames (accounts ++ [a]) := by
  rw [DistinctNames, map_append, nodup_append]
  refine ⟨h, nodup_singleton _, ?_⟩
  intro x hx y hy heq
  obtain ⟨b, hb, rfl⟩ := mem_map.mp hx
  simp only [map_cons, map_nil, mem_singleton] at hy
  exact findAccount_eq_none.mp hfresh b hb (heq.trans hy)

private theorem findAccount_parseAccount {line : Bytes} {a : Account}
    (h : parseAccount accounts line = some a) : findAccount accounts a.name = none := by
  simp only [parseAccount, Option.bind_eq_bind, Option.bind_eq_some_iff, Prod.exists] at h
  obtain ⟨nameText, first, -, flag, second, -, saltText, hashText, -, name, -, h⟩ := h
  split at h
  · next hvalid =>
    simp only [Option.bind_eq_some_iff, Option.some.injEq] at h
    obtain ⟨salt, -, passwordHash, -, rfl⟩ := h
    exact hvalid.2
  · cases h

/-- What every accepted line keeps holds of the accounts that the loop returns. -/
theorem parseAccounts_keeps {P : List Account → Prop}
    (hline : ∀ accounts line a, P accounts → accounts.length < maxUsers →
      parseAccount accounts line = some a → P (accounts ++ [a])) {fuel : Nat}
    {result : List Account} {rest : Bytes} (hstart : P accounts)
    (h : parseAccounts fuel accounts data = some (result, rest)) : P result := by
  induction fuel generalizing accounts data with
  | zero =>
    rw [parseAccounts, Option.some.injEq, Prod.mk.injEq] at h
    exact h.1 ▸ hstart
  | succ fuel ih =>
    rw [parseAccounts] at h
    split at h
    · rw [Option.some.injEq, Prod.mk.injEq] at h
      exact h.1 ▸ hstart
    · next hmore =>
      simp only [Option.bind_eq_bind, Option.bind_eq_some_iff, Prod.exists] at h
      obtain ⟨line, rest', -, h⟩ := h
      split at h
      · exact ih hstart h
      · obtain ⟨a, ha, h⟩ := Option.bind_eq_some_iff.mp h
        exact ih (hline accounts line a hstart (by omega) ha) h

section

variable (h : parseDatabase data = some (db, migration))

include h

/-- A file that is accepted is the account lines of a database behind its settings. -/
theorem parseDatabase_accounts :
    ∃ lines rest, parseAccounts lines.length [] lines = some (db.accounts, rest) := by
  simp only [parseDatabase, Option.bind_eq_bind, Option.bind_eq_some_iff, Prod.exists] at h
  obtain ⟨version, data₁, -, migration', -, enabled, data₂, -, h⟩ := h
  split at h
  · simp only [Option.bind_eq_some_iff, Prod.exists] at h
    obtain ⟨automaticText, data₃, -, automatic, -, accounts, rest, haccounts, h⟩ := h
    split at h
    · rw [Option.some.injEq, Prod.mk.injEq] at h
      exact ⟨data₃, rest, by rw [← h.1]; exact haccounts⟩
    · cases h
  · cases h

/-- A database that is accepted has distinct names. -/
theorem parseDatabase_distinct : DistinctNames db.accounts := by
  obtain ⟨lines, rest, hlines⟩ := parseDatabase_accounts h
  have hnil : DistinctNames [] := nodup_nil
  refine parseAccounts_keeps ?_ hnil hlines
  intro accounts line a hdistinct _ ha
  exact DistinctNames.append hdistinct (findAccount_parseAccount ha)

/-- A database that is accepted holds no more accounts than there is room for. -/
theorem parseDatabase_length : db.accounts.length ≤ maxUsers := by
  obtain ⟨lines, rest, hlines⟩ := parseDatabase_accounts h
  refine parseAccounts_keeps (P := fun accounts => accounts.length ≤ maxUsers) ?_
    (Nat.zero_le _) hlines
  intro accounts line a _ hroom _
  rw [length_append, length_singleton]
  exact hroom

end

private theorem length_hexText (bytes : Bytes) :
    (hexText bytes).length = 2 * bytes.length := by
  induction bytes with
  | nil => rfl
  | cons b bytes ih =>
    rw [hexText, flatMap_cons, length_append, ← hexText, ih]
    simp only [length_cons, length_nil]
    omega

/-- A flag is one character. -/
theorem length_flagText (flag : Bool) : (flagText flag).length = 1 := by cases flag <;> rfl

/-- A line for an account takes at most 116 bytes. -/
theorem length_accountLine (a : Account) : (accountLine a).length ≤ 116 := by
  have hname : a.name.val.length < 16 := a.name.property
  have hsalt : a.salt.toList.length = 16 := Vector.length_toList
  have hhash : a.passwordHash.toList.length = 32 := Vector.length_toList
  simp only [accountLine, length_append, length_hexText, length_flagText, length_cons,
    length_nil, hsalt, hhash]
  omega

private theorem length_accountLines (accounts : List Account) :
    (accounts.flatMap accountLine).length ≤ 116 * accounts.length := by
  induction accounts with
  | nil => exact le_rfl
  | cons a accounts ih =>
    have hline := length_accountLine a
    rw [flatMap_cons, length_append, length_cons]
    omega

/-- A full table of accounts fits into the file: "too large" is never reported. -/
theorem serializeDatabase_isSome (h : db.accounts.length ≤ maxUsers) :
    (serializeDatabase db).isSome = true := by
  have hname := db.automaticLogin.property
  have hlines := length_accountLines db.accounts
  rw [serializeDatabase, if_pos, Option.isSome_some]
  simp only [length_append, length_flagText, ascii, length_map, length_cons,
    length_nil, databaseCapacity, usernameCapacity, maxUsers] at h hname ⊢
  omega

end NasuaOS.Authentication
