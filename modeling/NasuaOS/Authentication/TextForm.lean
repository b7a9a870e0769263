import NasuaOS.Authentication.Authorisation

/-!
# The account file

`src/kernel_64bit/src/system/authentication/authentication.cpp:250–303,356–473`. A sound database is
restored from its text: every line is cut where it was joined, and every field is read back.
-/

namespace NasuaOS.Authentication

open Base Libc List

variable {deriveHash : Password → Salt → Hash}

private theorem forall_byte {P : UInt8 → Prop} (h : ∀ i : Fin 256, P (UInt8.ofFin i)) (b : UInt8) :
    P b :=
  h b.toFin

/-- The bytes that separate lines and fields, and the terminator. -/
def separator (c : UInt8) : Bool := c == 0 || c == 10 || c == 124

private theorem characters (c : UInt8) : (usernameCharacter c = true → separator c = false) ∧
    (c < 16 → hexValue (hexDigit c) = some c ∧ separator (hexDigit c) = false) ∧
    c >>> 4 < 16 ∧ c &&& 15 < 16 ∧ (c >>> 4) <<< 4 ||| (c &&& 15) = c := by
  revert c
  exact forall_byte (by decide +kernel)

/-- A text without separators. -/
def Plain (text : Bytes) : Prop := ∀ c ∈ text, separator c = false

private theorem plain_name {name : Username} (h : validUsername name = true) : Plain name.val := by
  intro c hc
  rw [validUsername, Bool.and_eq_true, all_eq_true] at h
  exact (characters c).1 (h.2 c hc)

private theorem plain_hexText (bytes : Bytes) : Plain (hexText bytes) := by
  intro c hc
  obtain ⟨b, -, hc⟩ := mem_flatMap.mp hc
  obtain ⟨-, -, hhigh, hlow, -⟩ := characters b
  simp only [mem_cons, not_mem_nil, or_false] at hc
  rcases hc with rfl | rfl
  · exact ((characters _).2.1 hhigh).2
  · exact ((characters _).2.1 hlow).2

private theorem plain_flagText (flag : Bool) : Plain (flagText flag) := by
  cases flag <;> simp [Plain, flagText, separator]

variable {text : Bytes} {db : Database}

private theorem takeWhile_stop {rest : Bytes} {stop : UInt8} (h : stop ∉ text) :
    (text ++ stop :: rest).takeWhile (· != stop) = text := by
  rw [takeWhile_append_of_pos]
  · simp
  · intro c hc
    rw [bne_iff_ne]
    exact fun heq => h (heq ▸ hc)

private theorem parseLine_append (rest : Bytes) (hend : (10 : UInt8) ∉ text)
    (hzero : (0 : UInt8) ∉ text) (hlength : text.length < lineCapacity) :
    parseLine (text ++ 10 :: rest) = some (text, rest) := by
  have hline : (text ++ 10 :: rest).takeWhile (· != 10) = text := takeWhile_stop hend
  have hstring : text.takeWhile (· != 0) = text := by
    rw [takeWhile_eq_self_iff]
    intro c hc
    rw [bne_iff_ne]
    exact fun heq => hzero (heq ▸ hc)
  have hdrop : (text ++ 10 :: rest).drop (text.length + 1) = rest := by
    rw [drop_append, drop_eq_nil_of_le (Nat.le_succ _), Nat.add_sub_cancel_left]
    rfl
  simp only [parseLine, hline]
  rw [if_pos, hstring, hdrop]
  refine ⟨hlength, ?_⟩
  simp

private theorem cutField_append (rest : Bytes) (h : Plain text) :
    cutField (text ++ 124 :: rest) = some (text, rest) := by
  have hend : (124 : UInt8) ∉ text := fun hc => absurd (h 124 hc) (by decide)
  have hfield : (text ++ 124 :: rest).takeWhile (· != 124) = text := takeWhile_stop hend
  have hdrop : (text ++ 124 :: rest).drop (text.length + 1) = rest := by
    rw [drop_append, drop_eq_nil_of_le (Nat.le_succ _), Nat.add_sub_cancel_left]
    rfl
  simp only [cutField, hfield]
  rw [if_pos, hdrop]
  simp

private theorem decodeHex_list (bytes : Bytes) {size : Nat} (hsize : bytes.length = size) :
    ∃ v, decodeHex size (hexText bytes) = some v ∧ v.toList = bytes := by
  induction bytes generalizing size with
  | nil =>
    subst hsize
    exact ⟨#v[], rfl, rfl⟩
  | cons b bytes ih =>
    subst hsize
    obtain ⟨v, hv, hlist⟩ := ih rfl
    obtain ⟨-, -, hhigh, hlow, hboth⟩ := characters b
    refine ⟨(#v[b] ++ v).cast (Nat.add_comm 1 bytes.length), ?_, ?_⟩
    · change decodeHex (bytes.length + 1)
        (hexDigit (b >>> 4) :: hexDigit (b &&& 15) :: hexText bytes) = _
      rw [decodeHex, ((characters _).2.1 hhigh).1, ((characters _).2.1 hlow).1, hv]
      simp only [Option.bind_eq_bind, Option.bind_some, hboth]
    · change (#v[b] ++ v).toList = b :: bytes
      rw [Vector.toList_append, hlist]
      rfl

private theorem decodeHex_hexText {size : Nat} (bytes : FixedBytes size) :
    decodeHex size (hexText bytes.toList) = some bytes := by
  obtain ⟨v, hv, hlist⟩ := decodeHex_list bytes.toList (Vector.length_toList)
  rw [hv, Vector.toList_inj.mp hlist]

/-- The line of an account, without its end. -/
def accountText (a : Account) : Bytes :=
  a.name.val ++ 124 :: (flagText a.administrator ++ 124 ::
    (hexText a.salt.toList ++ 124 :: hexText a.passwordHash.toList))

private theorem accountLine_eq (a : Account) : accountLine a = accountText a ++ [10] := by
  simp [accountLine, accountText]

private theorem mem_accountText {a : Account} (h : validUsername a.name = true) {c : UInt8}
    (hc : c ∈ accountText a) : separator c = false ∨ c = 124 := by
  simp only [accountText, mem_append, mem_cons] at hc
  rcases hc with hc | rfl | hc | rfl | hc | rfl | hc
  · exact .inl (plain_name h c hc)
  · exact .inr rfl
  · exact .inl (plain_flagText _ c hc)
  · exact .inr rfl
  · exact .inl (plain_hexText _ c hc)
  · exact .inr rfl
  · exact .inl (plain_hexText _ c hc)

private theorem length_accountText (a : Account) : (accountText a).length < lineCapacity := by
  have hline := length_accountLine a
  rw [accountLine_eq, length_append, length_singleton] at hline
  rw [lineCapacity]
  omega

private theorem username_val {name : Username} (h : validUsername name = true) :
    username name.val = some name := by
  rw [username, Text.ofList?, dif_pos name.property]
  exact Option.filter_eq_some_iff.mpr ⟨rfl, h⟩

private theorem parseAccount_accountText {accounts : List Account} {a : Account}
    (h : validUsername a.name = true) (hfresh : findAccount accounts a.name = none) :
    parseAccount accounts (accountText a) = some a := by
  have hflag : (flagText a.administrator = [48] ∨ flagText a.administrator = [49]) ∧
      findAccount accounts a.name = none := by
    refine ⟨?_, hfresh⟩
    cases a.administrator
    · exact .inl rfl
    · exact .inr rfl
  have hback : (flagText a.administrator == [49]) = a.administrator := by
    cases a.administrator <;> rfl
  simp only [parseAccount, accountText, cutField_append _ (plain_name h),
    cutField_append _ (plain_flagText _), cutField_append _ (plain_hexText _), username_val h,
    decodeHex_hexText, hback, Option.bind_eq_bind, Option.bind_some, if_pos hflag]

private theorem parseAccounts_lines {todo done : List Account} {fuel : Nat}
    (hfuel : todo.length ≤ fuel) (hroom : (done ++ todo).length ≤ maxUsers)
    (hdistinct : DistinctNames (done ++ todo)) (hvalid : ∀ a ∈ todo, validUsername a.name = true) :
    parseAccounts fuel done (todo.flatMap accountLine) = some (done ++ todo, []) := by
  induction todo generalizing done fuel with
  | nil =>
    cases fuel with
    | zero | succ fuel => simp [parseAccounts]
  | cons a todo ih =>
    cases fuel with
    | zero => exact absurd hfuel (Nat.not_succ_le_zero _)
    | succ fuel =>
      have ha := hvalid a mem_cons_self
      have hstop : ∀ c, separator c = true → c ≠ 124 → c ∉ accountText a := by
        intro c hc hne hmem
        rcases mem_accountText ha hmem with hplain | heq
        · exact absurd (hplain.symm.trans hc) (by decide)
        · exact hne heq
      have hline : parseLine ((a :: todo).flatMap accountLine) =
          some (accountText a, todo.flatMap accountLine) := by
        rw [flatMap_cons, accountLine_eq, append_assoc]
        exact parseLine_append _ (hstop 10 rfl (by decide)) (hstop 0 rfl (by decide))
          (length_accountText a)
      have hfresh : findAccount done a.name = none := by
        rw [findAccount_eq_none]
        intro b hb hname
        rw [DistinctNames, map_append, nodup_append] at hdistinct
        exact hdistinct.2.2 b.name (mem_map_of_mem hb) a.name
          (mem_map_of_mem mem_cons_self) hname
      have hmore : ¬ ((a :: todo).flatMap accountLine = [] ∨ maxUsers ≤ done.length) := by
        simp only [length_append, length_cons] at hroom
        rw [not_or]
        refine ⟨?_, by omega⟩
        rw [flatMap_cons, accountLine_eq]
        simp
      have hnonempty : accountText a ≠ [] := by
        simp [accountText]
      have hnext := @ih (done ++ [a]) fuel (Nat.le_of_succ_le_succ hfuel) (by simpa using hroom)
        (by simpa using hdistinct) (fun b hb => hvalid b (mem_cons_of_mem _ hb))
      rw [parseAccounts, if_neg hmore, hline]
      simp only [Option.bind_eq_bind, Option.bind_some, if_neg hnonempty,
        parseAccount_accountText ha hfresh]
      simpa using hnext

/-- The version of the file. -/
def versionText : Bytes := ascii ['N', 'A', 'S', 'U', 'A', 'U', 'T', 'H', '2']

/-- The lines of a database. -/
def textLines (db : Database) : List Bytes :=
  versionText :: flagText db.loginEnabled :: db.automaticLogin.val :: db.accounts.map accountText

/-- The text of a database fits the file and its lines fit the line buffer, and it is accepted and
gives the database back. -/
structure Database.RoundTrips (db : Database) : Prop where
  text : serializeDatabase db = some ((textLines db).flatMap (· ++ [10]))
  fits : ((textLines db).flatMap (· ++ [10])).length < databaseCapacity
  lines : ∀ line ∈ textLines db, (10 : UInt8) ∉ line ∧ line.length < lineCapacity
  restored : parseDatabase ((textLines db).flatMap (· ++ [10])) = some (db, false)

private theorem textLines_flatMap (db : Database) :
    (textLines db).flatMap (· ++ [10]) = versionText ++ 10 ::
      (flagText db.loginEnabled ++ 10 :: (db.automaticLogin.val ++ 10 ::
        db.accounts.flatMap accountLine)) := by
  have hlines : (db.accounts.map accountText).flatMap (· ++ [10]) =
      db.accounts.flatMap accountLine := by
    rw [flatMap_map]
    simp only [← accountLine_eq]
  simp only [textLines, flatMap_cons, hlines]
  simp

private theorem serializeDatabase_lines (h : serializeDatabase db = some text) :
    text = (textLines db).flatMap (· ++ [10]) ∧ text.length < databaseCapacity := by
  simp only [serializeDatabase] at h
  split at h
  · next hfits =>
    cases h
    refine ⟨?_, hfits⟩
    rw [textLines_flatMap]
    simp [versionText, ascii]
  · cases h

private theorem length_le_accountLines (accounts : List Account) :
    accounts.length ≤ (accounts.flatMap accountLine).length := by
  induction accounts with
  | nil => exact le_rfl
  | cons a accounts ih =>
    rw [flatMap_cons, length_append, accountLine_eq, length_append,
      length_singleton, length_cons]
    omega

/-- A sound database round-trips. -/
theorem Database.Sound.roundTrips (h : db.Sound) : db.RoundTrips := by
  have hautomatic : validUsername db.automaticLogin = true := by
    obtain ⟨a, ha, hname⟩ := h.automatic
    exact hname ▸ h.valid a ha
  have hplain : ∀ {text : Bytes} {c : UInt8}, Plain text → separator c = true → c ∉ text := by
    intro text c htext hc hmem
    exact absurd ((htext c hmem).symm.trans hc) (by decide)
  have hname : db.automaticLogin.val.length < lineCapacity :=
    Nat.lt_trans db.automaticLogin.property (by decide)
  have hflag : (flagText db.loginEnabled).length < lineCapacity := by
    rw [length_flagText]
    decide
  obtain ⟨text, htext⟩ := Option.isSome_iff_exists.mp
    (serializeDatabase_isSome h.wellFormed.length_le)
  obtain ⟨rfl, hfits⟩ := serializeDatabase_lines htext
  refine ⟨htext, hfits, ?_, ?_⟩
  · intro line hline
    simp only [textLines, mem_cons, mem_map] at hline
    rcases hline with rfl | rfl | rfl | ⟨a, ha, rfl⟩
    · decide
    · exact ⟨hplain (plain_flagText _) rfl, hflag⟩
    · exact ⟨hplain (plain_name hautomatic) rfl, hname⟩
    · refine ⟨fun hmem => ?_, length_accountText a⟩
      rcases mem_accountText (h.valid a ha) hmem with hc | hc
      · exact absurd hc (by decide)
      · exact absurd hc (by decide)
  · have hversion : parseVersion versionText = some false := by decide
    have henabled : flagText db.loginEnabled = [48] ∨ flagText db.loginEnabled = [49] := by
      cases db.loginEnabled
      · exact .inl rfl
      · exact .inr rfl
    have hback : (flagText db.loginEnabled == [49]) = db.loginEnabled := by
      cases db.loginEnabled <;> rfl
    have haccounts := @parseAccounts_lines db.accounts [] _ (length_le_accountLines _)
      h.wellFormed.length_le
      h.wellFormed.distinct h.valid
    rw [textLines_flatMap, parseDatabase, parseLine_append _ (by decide) (by decide) (by decide)]
    simp only [Option.bind_eq_bind, Option.bind_some, hversion,
      parseLine_append _ (hplain (plain_flagText _) rfl) (hplain (plain_flagText _) rfl) hflag,
      if_pos henabled,
      parseLine_append _ (hplain (plain_name hautomatic) rfl) (hplain (plain_name hautomatic) rfl)
        hname, username_val hautomatic, haccounts]
    have haccepted : db.accounts ≠ [] ∧ (findAccount db.accounts db.automaticLogin).isSome = true ∧
        db.accounts.any (·.administrator) = true := by
      obtain ⟨a, ha, hadministrator⟩ := h.flagged
      refine ⟨ne_nil_of_mem ha, ?_, any_eq_true.mpr ⟨a, ha, hadministrator⟩⟩
      obtain ⟨b, hb, hname⟩ := h.automatic
      rw [Option.isSome_iff_ne_none]
      intro hnone
      exact findAccount_eq_none.mp hnone b hb hname
    rw [nil_append, if_pos ⟨trivial, haccepted⟩, hback]
    rfl

/-- `persist_database` is called with this database: by `auth_init`, when an old file was read or
there is none, or by a command or a key in a state that the system can be in. -/
inductive Saved (deriveHash : Password → Salt → Hash) :
    Database → Prop
  | migrated (boot : Boot) {size : Nat} {db : Database} (hsize : boot.fileSize = some size)
    (hread : readDatabase size boot.file = some (db, true)) : Saved deriveHash db
  | seeded (boot : Boot) : Saved deriveHash (seedDefaults deriveHash boot.rootSalt boot.userSalt)
  | step {s : State} (hs : Reachable deriveHash s) {event : Event} (hentered : Entered s event)
    {after : Session} (hpersists : Persists deriveHash s event after) :
    Saved deriveHash after.database

/-- What is saved is sound. -/
theorem Saved.sound (h : Saved deriveHash db) : db.Sound := by
  cases h with
  | migrated boot hsize hread => exact (@readDatabase_valid deriveHash _ _ _ _ hread).sound
  | seeded boot => exact (ValidDatabase.defaults boot.rootSalt boot.userSalt).sound
  | step hs hentered hpersists =>
    have hgood := hs.good.resolve_right fun hblocked => hblocked.persists hentered hpersists
    exact (hgood.persists hpersists).database

private theorem step_saved {s : State} (hs : Reachable deriveHash s) {event : Event}
    (hentered : Entered s event) : (step deriveHash s event).database = s.database ∨
      Saved deriveHash (step deriveHash s event).database := by
  rcases hs.good with hgood | hblocked
  · cases @step_turn deriveHash s hgood.database.wellFormed.length_le event with
    | idle hsession | asked hsession | opened hsession | typed hsession | closed hsession =>
      exact .inl (congrArg Session.database hsession)
    | entered hscreen hfound hget hmatches hsession =>
      exact .inl (congrArg Session.database hsession)
    | saved hpersists hsaves hsession =>
      right
      rw [show (step deriveHash s event).database = _ from congrArg Session.database hsession]
      exact .step hs hentered hpersists
  · rw [hblocked.step hentered]
    exact .inl rfl

/-- Every text that `persist_database` writes fits, and `parse_database` restores the database from
it; and nothing else changes the database of a running system. -/
theorem saved_roundTrips :
    (∀ db, Saved deriveHash db → db.RoundTrips) ∧
    ∀ s event, Reachable deriveHash s → Entered s event →
      (step deriveHash s event).database = s.database ∨
        Saved deriveHash (step deriveHash s event).database :=
  ⟨fun _ h => h.sound.roundTrips, fun _ _ hs hentered => step_saved hs hentered⟩

/-- The first account file, and the file after `login --on` of the administrator. -/
theorem saved_roundTrips_first :
    (seedDefaults plainHash (Vector.replicate _ 0) (Vector.replicate _ 0)).RoundTrips ∧
    Database.RoundTrips
      { (run plainHash firstStart becomeRoot).database with loginEnabled := true } := by
  refine ⟨?_, ?_⟩
  · exact saved_roundTrips.1 _ (.seeded ⟨formattedDisk, none, none, false, Vector.replicate _ 0,
      Vector.replicate _ 0⟩)
  · have hentered : Entered (run plainHash firstStart becomeRoot)
        (.command .login (cstring (ascii ['-', '-', 'o', 'n'])) formattedDisk) := root_state.1
    exact saved_roundTrips.1 _ (.step reachable_root hentered (.loginOn (by decide) root_state.2.1))

end NasuaOS.Authentication
