import NasuaOS.Authentication.Administrator

/-!
# Reachable states

`src/kernel_64bit/src/system/authentication/authentication.cpp:725–807`. The states after `auth_init`
and any commands and keys, where a command is entered only while no prompt captures the input. In all
of them the database is one that `parse_database` could have accepted, the session names its account,
and a prompt for a new password was opened by someone who may set it; or the account file was refused,
and nothing can be done at all.
-/

namespace NasuaOS.Authentication

open Base Libc List

variable {deriveHash : Password → Salt → Hash}
variable {s s' : State}

/-- A state that the system can be in. -/
inductive Reachable (deriveHash : Password → Salt → Hash) :
    State → Prop
  | start (boot : Boot) (globals : State) : Reachable deriveHash (authInit deriveHash boot globals).2
  | step {s : State} (h : Reachable deriveHash s) {event : Event} (hentered : Entered s event) :
    Reachable deriveHash (step deriveHash s event)

/-- What `parse_database` asks of a database. -/
structure Database.Sound (db : Database) : Prop where
  wellFormed : WellFormed db.accounts
  valid : ∀ a ∈ db.accounts, validUsername a.name = true
  flagged : ∃ a ∈ db.accounts, a.administrator = true
  automatic : ∃ a ∈ db.accounts, a.name = db.automaticLogin

variable {accounts : List Account} {db : Database} {event : Event}

private theorem validUsername_parseAccount {line : Bytes} {a : Account}
    (h : parseAccount accounts line = some a) : validUsername a.name = true := by
  simp only [parseAccount, Option.bind_eq_bind, Option.bind_eq_some_iff, Prod.exists] at h
  obtain ⟨nameText, first, -, flag, second, -, saltText, hashText, -, name, hname, h⟩ := h
  split at h
  · simp only [Option.bind_eq_some_iff, Option.some.injEq] at h
    obtain ⟨salt, -, passwordHash, -, rfl⟩ := h
    exact (Option.filter_eq_some_iff.mp hname).2
  · cases h

private theorem mem_of_findAccount {name : Username} (h : (findAccount accounts name).isSome = true) :
    ∃ a ∈ accounts, a.name = name := by
  obtain ⟨i, hi⟩ := Option.isSome_iff_exists.mp h
  obtain ⟨a, hget, hname⟩ := findAccount_eq_some hi
  exact ⟨a, mem_of_getElem? hget, hname⟩

private theorem parseDatabase_sound {data : Bytes} {migration : Bool}
    (h : parseDatabase data = some (db, migration)) : db.Sound := by
  have hvalid : ∀ a ∈ db.accounts, validUsername a.name = true := by
    obtain ⟨lines, rest, hlines⟩ := parseDatabase_accounts h
    refine parseAccounts_keeps (P := fun accounts => ∀ a ∈ accounts, validUsername a.name = true) ?_
      (fun _ ha => absurd ha not_mem_nil) hlines
    intro accounts line a haccounts _ ha b hb
    rcases mem_append.mp hb with hb | hb
    · exact haccounts b hb
    · rw [mem_singleton.mp hb]
      exact validUsername_parseAccount ha
  have hwell : WellFormed db.accounts := ⟨parseDatabase_length h, parseDatabase_distinct h⟩
  simp only [parseDatabase, Option.bind_eq_bind, Option.bind_eq_some_iff, Prod.exists] at h
  obtain ⟨version, data₁, -, migration', -, enabled, data₂, -, h⟩ := h
  split at h
  · simp only [Option.bind_eq_some_iff, Prod.exists] at h
    obtain ⟨automaticText, data₃, -, automatic, -, accounts, rest, -, h⟩ := h
    split at h
    · next hchecks =>
      cases h
      obtain ⟨-, -, hautomatic, hflag⟩ := hchecks
      exact ⟨hwell, hvalid, any_eq_true.mp hflag, mem_of_findAccount hautomatic⟩
    · cases h
  · cases h

/-- A valid database is sound. -/
theorem ValidDatabase.sound (h : ValidDatabase deriveHash db) : db.Sound := by
  have hwell := h.wellFormed
  cases h with
  | defaults rootSalt userSalt =>
    refine ⟨hwell, ?_, ⟨_, mem_cons_self, rfl⟩,
      ⟨_, mem_cons_of_mem _ mem_cons_self, rfl⟩⟩
    intro a ha
    have hnames : validUsername root = true ∧ validUsername user = true := by decide
    simp only [seedDefaults, mem_cons, not_mem_nil, or_false] at ha
    rcases ha with rfl | rfl
    · exact hnames.1
    · exact hnames.2
  | file h => exact parseDatabase_sound h

namespace Database.Sound

variable {db : Database} {a b : Account} {i : Nat}

private theorem append (h : db.Sound) (hwell : WellFormed (db.accounts ++ [a]))
    (hvalid : validUsername a.name = true) :
    Database.Sound { db with accounts := db.accounts ++ [a] } where
  wellFormed := hwell
  valid := by
    intro b hb
    rcases mem_append.mp hb with hb | hb
    · exact h.valid b hb
    · rw [mem_singleton.mp hb]
      exact hvalid
  flagged := by
    obtain ⟨b, hb, hflag⟩ := h.flagged
    exact ⟨b, mem_append_left _ hb, hflag⟩
  automatic := by
    obtain ⟨b, hb, hname⟩ := h.automatic
    exact ⟨b, mem_append_left _ hb, hname⟩

private theorem mem_set {accounts : List Account} (hget : accounts[i]? = some a) (b : Account) {c : Account}
    (hc : c ∈ accounts) : c ∈ accounts.set i b ∨ c = a := by
  obtain ⟨j, hj⟩ := mem_iff_getElem?.mp hc
  by_cases hij : i = j
  · subst hij
    exact .inr (Option.some.inj (hj.symm.trans hget))
  · exact .inl (mem_of_getElem? ((getElem?_set_ne hij).trans hj))

private theorem rehash (h : db.Sound) (hwell : WellFormed (db.accounts.set i b))
    (hget : db.accounts[i]? = some a) (hname : b.name = a.name)
    (hflag : b.administrator = a.administrator) :
    Database.Sound { db with accounts := db.accounts.set i b } := by
  have hb : b ∈ db.accounts.set i b := List.mem_set (List.getElem?_eq_some_iff.mp hget).1 b
  refine ⟨hwell, ?_, ?_, ?_⟩
  · intro c hc
    rcases mem_or_eq_of_mem_set hc with hc | rfl
    · exact h.valid c hc
    · rw [hname]
      exact h.valid a (mem_of_getElem? hget)
  · obtain ⟨c, hc, hcflag⟩ := h.flagged
    rcases mem_set hget b hc with hc | rfl
    · exact ⟨c, hc, hcflag⟩
    · exact ⟨b, hb, hflag.trans hcflag⟩
  · obtain ⟨c, hc, hcname⟩ := h.automatic
    rcases mem_set hget b hc with hc | rfl
    · exact ⟨c, hc, hcname⟩
    · exact ⟨b, hb, hname.trans hcname⟩

private theorem rename (h : db.Sound) (hget : db.accounts[i]? = some a) {newName : Username}
    (hfresh : findAccount db.accounts newName = none) (hvalid : validUsername newName = true) :
    Database.Sound { db with
      accounts := db.accounts.set i { a with name := newName }
      automaticLogin := if db.automaticLogin = a.name then newName else db.automaticLogin } := by
  have hlt := (List.getElem?_eq_some_iff.mp hget).1
  have hnew := List.mem_set hlt { a with name := newName }
  refine ⟨⟨?_, h.wellFormed.distinct.set hfresh i⟩, ?_, ?_, ?_⟩
  · rw [length_set]
    exact h.wellFormed.length_le
  · intro c hc
    rcases mem_or_eq_of_mem_set hc with hc | rfl
    · exact h.valid c hc
    · exact hvalid
  · obtain ⟨c, hc, hflag⟩ := h.flagged
    rcases mem_set hget { a with name := newName } hc with hc | rfl
    · exact ⟨c, hc, hflag⟩
    · exact ⟨_, hnew, hflag⟩
  · split
    · exact ⟨_, hnew, rfl⟩
    · next hother =>
      obtain ⟨c, hc, hname⟩ := h.automatic
      rcases mem_set hget { a with name := newName } hc with hc | rfl
      · exact ⟨c, hc, hname⟩
      · exact absurd hname.symm hother

private theorem erase (h : db.Sound) (hwell : WellFormed (db.accounts.eraseIdx i))
    (hget : db.accounts[i]? = some a) {j : Nat} (hij : j ≠ i) (hj : db.accounts[j]? = some b)
    (hname : b.name = root) (hflag : b.administrator = true) :
    Database.Sound { db with
      accounts := db.accounts.eraseIdx i
      automaticLogin := if db.automaticLogin = a.name then root else db.automaticLogin } := by
  have hb : b ∈ db.accounts.eraseIdx i := mem_eraseIdx_iff_getElem?.mpr ⟨j, hij, hj⟩
  refine ⟨hwell, ?_, ⟨b, hb, hflag⟩, ?_⟩
  · intro c hc
    exact h.valid c (mem_of_mem_eraseIdx hc)
  · split
    · exact ⟨b, hb, hname⟩
    · next hother =>
      obtain ⟨c, hc, hcname⟩ := h.automatic
      obtain ⟨k, hk⟩ := mem_iff_getElem?.mp hc
      have hki : k ≠ i := by
        rintro rfl
        rw [hk, Option.some.injEq] at hget
        exact hother (hget ▸ hcname.symm)
      exact ⟨c, mem_eraseIdx_iff_getElem?.mpr ⟨k, hki, hk⟩, hcname⟩

private theorem setting (h : db.Sound) (enabled : Bool) :
    Database.Sound { db with loginEnabled := enabled } :=
  ⟨h.wellFormed, h.valid, h.flagged, h.automatic⟩

private theorem automaticLogin (h : db.Sound) (ha : a ∈ db.accounts) (enabled : Bool) :
    Database.Sound { db with loginEnabled := enabled, automaticLogin := a.name } :=
  ⟨h.wellFormed, h.valid, h.flagged, a, ha, rfl⟩

end Database.Sound

/-- The account file was refused: no key is handled, and no command is entered. -/
structure Blocked (s : State) : Prop where
  databaseValid : s.databaseValid = false
  currentUserValid : s.currentUserValid = false
  screenMode : s.screenMode = .loginUsername

/-- What holds in every other state. -/
structure Good (s : State) : Prop where
  database : s.database.Sound
  session : s.currentUserValid = true →
    ∃ i a, s.activeAccountIndex = some i ∧ s.accounts[i]? = some a ∧ s.userName = a.name
  prompt : s.asksPassword → MayAsk s s.passwordAction s.passwordTarget

/-- The end of `auth_init`: nobody is logged in, or the account that logs in by itself is. -/
structure Started (s : State) : Prop where
  database : s.database.Sound
  session : s.currentUserValid = false ∨ s.currentUserValid = true ∧ s.loginEnabled = false ∧
    ∃ i a, findAccount s.accounts s.automaticLogin = some i ∧ s.accounts[i]? = some a ∧
      s.activeAccountIndex = some i ∧ s.userName = a.name
  prompt : ¬ s.asksPassword

private theorem Started.good (h : Started s) : Good s where
  database := h.database
  session := by
    intro hvalid
    rcases h.session with hnobody | ⟨-, -, i, a, -, hget, hactive, hname⟩
    · exact absurd (hnobody.symm.trans hvalid) (by decide)
    · exact ⟨i, a, hactive, hget, hname⟩
  prompt := fun hasks => absurd hasks h.prompt

private theorem startSession_started (hdb : s.database.Sound)
    (hnobody : s.currentUserValid = false) :
    Started (startSession s).2 ∨ Blocked (startSession s).2 := by
  rw [startSession]
  split
  · exact .inl ⟨hdb, .inl hnobody, by simp [State.asksPassword]⟩
  · next henabled =>
    split
    · exact .inr ⟨rfl, hnobody, rfl⟩
    · next i hfound =>
      obtain ⟨a, hget, -⟩ := findAccount_eq_some hfound
      refine .inl ⟨hdb, .inr ⟨rfl, ?_, i, a, hfound, hget, rfl, ?_⟩, ?_⟩
      · change s.loginEnabled = false
        simpa using henabled
      · exact congrArg Account.name (State.account_eq hget)
      · simp [State.asksPassword, applyAccountSession]

/-- A file that is read holds a valid database. -/
theorem readDatabase_valid {size : Nat} {file : Option Bytes} {db : Database}
    {migration : Bool} (h : readDatabase size file = some (db, migration)) :
    ValidDatabase deriveHash db := by
  unfold readDatabase at h
  split at h
  · cases h
  · split at h
    · exact .file h
    · cases h

/-- A database was loaded, and nobody is logged in. -/
structure Loaded (db : Database) (s : State) : Prop where
  accounts : s.accounts = db.accounts
  automaticLogin : s.automaticLogin = db.automaticLogin
  nobody : s.currentUserValid = false

private theorem Loaded.persist (h : Loaded db s) (disk : Storage) :
    Loaded db (persistDatabase disk s).2 := by
  have hsession := persistDatabase_session disk s
  constructor
  · exact (congrArg (fun x => x.database.accounts) hsession).trans h.accounts
  · exact (congrArg (fun x => x.database.automaticLogin) hsession).trans h.automaticLogin
  · exact (congrArg Session.currentUserValid hsession).trans h.nobody

private theorem Loaded.setting (h : Loaded db s) : Loaded db { s with loginEnabled := true } :=
  ⟨h.accounts, h.automaticLogin, h.nobody⟩

private theorem authInit_loaded (boot : Boot) (globals : State) :
    Blocked (authInit deriveHash boot globals).2 ∨ ∃ db t, ValidDatabase deriveHash db ∧
      ((authInit deriveHash boot globals).2 = (startSession t).2 ∨
        ∃ text, (authInit deriveHash boot globals).2 = stopAtLogin text t) ∧ Loaded db t := by
  have hseeded : ValidDatabase deriveHash _ := .defaults boot.rootSalt boot.userSalt
  simp only [authInit]
  split
  · exact .inr ⟨_, _, hseeded, .inl rfl, rfl, rfl, rfl⟩
  split
  · split
    · exact .inl ⟨rfl, rfl, rfl⟩
    · next hread =>
      have hdb := @readDatabase_valid deriveHash _ _ _ _ hread
      split
      · split
        · exact .inr ⟨_, _, hdb, .inl rfl, .persist ⟨rfl, rfl, rfl⟩ _⟩
        · exact .inr ⟨_, _, hdb, .inr ⟨_, rfl⟩, (Loaded.persist ⟨rfl, rfl, rfl⟩ _).setting⟩
      · exact .inr ⟨_, _, hdb, .inl rfl, rfl, rfl, rfl⟩
  · split
    · exact .inl ⟨rfl, rfl, rfl⟩
    split
    · split
      · exact .inr ⟨_, _, hseeded, .inl rfl, .persist ⟨rfl, rfl, rfl⟩ _⟩
      · exact .inr ⟨_, _, hseeded, .inr ⟨_, rfl⟩, .persist ⟨rfl, rfl, rfl⟩ _⟩
    · exact .inr ⟨_, _, hseeded, .inl rfl, rfl, rfl, rfl⟩

/-- `auth_init`. -/
theorem authInit_started (boot : Boot) (globals : State) :
    Started (authInit deriveHash boot globals).2 ∨ Blocked (authInit deriveHash boot globals).2 := by
  rcases @authInit_loaded deriveHash boot globals with hblocked | ⟨db, t, hdb, hend, hloaded⟩
  · exact .inr hblocked
  · have hsound : t.database.Sound := by
      rw [State.database, hloaded.accounts, hloaded.automaticLogin]
      exact hdb.sound.setting _
    rcases hend with hend | ⟨text, hend⟩
    · rw [hend]
      exact startSession_started hsound hloaded.nobody
    · rw [hend]
      exact .inl ⟨hsound, .inl hloaded.nobody, by simp [State.asksPassword, stopAtLogin]⟩

private theorem MayAsk.congr {action : PasswordAction} {target : Username} (h : MayAsk s action target)
    (hsession : s'.session = s.session) : MayAsk s' action target := by
  cases h with
  | add hvalid => exact .add hvalid
  | change hcurrent hfound hright =>
    rw [← currentAccount_congr hsession] at hcurrent
    rw [← show s'.accounts = s.accounts from congrArg (fun x => x.database.accounts) hsession]
      at hfound
    rw [← administrates_congr hsession] at hright
    exact .change hcurrent hfound hright

/-- What is saved is sound, and the session names its account. -/
structure Session.Sound (x : Session) : Prop where
  database : x.database.Sound
  session : x.currentUserValid = true → ∃ i a, x.activeAccountIndex = some i ∧
    x.database.accounts[i]? = some a ∧ x.userName = a.name

private theorem Good.of_session (h : Good s) (hsession : s'.session = s.session)
    (hprompt : s'.asksPassword → MayAsk s s'.passwordAction s'.passwordTarget) : Good s' := by
  have hsound : s'.session.Sound := by
    rw [hsession]
    exact ⟨h.database, h.session⟩
  exact ⟨hsound.database, hsound.session, fun hasks => (hprompt hasks).congr hsession⟩

/-- An administrator who is logged in. -/
theorem State.administrates_eq (h : s.administrates = true) :
    ∃ i a, s.currentAccount = some i ∧ s.accounts[i]? = some a ∧ a.name = root ∧
      a.administrator = true := by
  rw [State.administrates, isAdministrator] at h
  split at h
  · cases h
  · next a hget =>
    obtain ⟨i, hi, hget⟩ := Option.bind_eq_some_iff.mp hget
    rw [Bool.and_eq_true, beq_iff_eq] at h
    exact ⟨i, a, hi, hget, h.2, h.1⟩

private theorem getElem?_eraseIdx_shift {i target : Nat} (h : i ≠ target) :
    (accounts.eraseIdx target)[if target < i then i - 1 else i]? = accounts[i]? := by
  rw [getElem?_eraseIdx]
  split
  · next hlt =>
    rw [if_neg (by omega), Nat.sub_add_cancel (by omega)]
  · rw [if_pos (by omega)]

/-- What is saved in any good state is sound. -/
theorem Good.persists (h : Good s) {after : Session} (hpersists : Persists deriveHash s event after) :
    after.Sound := by
  have hwell {accounts : List Account} (hchange : Change s event accounts) : WellFormed accounts :=
    h.database.wellFormed.change hchange
  cases hpersists with
  | loginOn hargs hadmin =>
    exact ⟨h.database.setting true, h.session⟩
  | loginOff hargs hadmin =>
    obtain ⟨i, a, hcurrent, hget, -⟩ := State.administrates_eq hadmin
    obtain ⟨-, -, b, hget', hname⟩ := State.currentAccount_eq hcurrent
    refine ⟨?_, h.session⟩
    rw [hname]
    exact h.database.automaticLogin (mem_of_getElem? hget') false
  | removed hadmin hfound hroot hcurrent =>
    next args disk name target =>
    obtain ⟨a, hget, rfl⟩ := findAccount_eq_some hfound
    obtain ⟨i, r, hi, hr, hname, hflag⟩ := State.administrates_eq hadmin
    have hne : i ≠ target := by
      rintro rfl
      exact hcurrent hi
    rw [State.account_eq hget] at hroot
    refine ⟨h.database.erase (hwell (.removed target a hget hroot)) hget hne hr hname hflag, ?_⟩
    intro hvalid
    obtain ⟨-, hactive, b, hb, hbname⟩ := State.currentAccount_eq hi
    refine ⟨if target < i then i - 1 else i, b, ?_, ?_, hbname⟩
    · change s.activeAccountIndex.map _ = _
      rw [hactive]
      rfl
    · exact (getElem?_eraseIdx_shift hne).trans hb
  | renamed hvalid hcurrent hfound hfresh =>
    next args disk oldName newName current target =>
    obtain ⟨a, hget, rfl⟩ := findAccount_eq_some hfound
    obtain ⟨-, hactive, b, hb, hbname⟩ := State.currentAccount_eq hcurrent
    have hnamed : (withName target a.name newName s).database =
        { s.database with
          accounts := s.accounts.set target { a with name := newName }
          automaticLogin := if s.automaticLogin = a.name then newName else s.automaticLogin } := by
      rw [withName, State.account_eq hget]
      rfl
    have hlt := (List.getElem?_eq_some_iff.mp hget).1
    refine ⟨?_, fun _ => ?_⟩
    · change (withName target a.name newName s).database.Sound
      rw [hnamed]
      exact h.database.rename hget hfresh hvalid
    · change ∃ i c, s.activeAccountIndex = some i ∧
        (withName target a.name newName s).database.accounts[i]? = some c ∧ _ = c.name
      rw [hnamed]
      by_cases hown : target = current
      · subst hown
        exact ⟨target, _, hactive, getElem?_set_self hlt, if_pos rfl⟩
      · refine ⟨current, b, hactive, ?_, (if_neg hown).trans hbname⟩
        exact (getElem?_set_ne hown).trans hb
  | added hasks haction hadmin hfresh hroom =>
    have hvalid : validUsername s.passwordTarget = true := by
      have hmay := h.prompt hasks
      rw [haction] at hmay
      cases hmay with
      | add hvalid => exact hvalid
    refine ⟨h.database.append (hwell (.added _ hfresh hroom rfl)) hvalid, fun hlogged => ?_⟩
    obtain ⟨i, a, hactive, hget, hname⟩ := h.session hlogged
    have hlt := (List.getElem?_eq_some_iff.mp hget).1
    exact ⟨i, a, hactive, (getElem?_append_left hlt).trans hget, hname⟩
  | changed hasks haction hfound hget =>
    next disk salt target a =>
    refine ⟨h.database.rehash (hwell (.rehashed _ _ _ hget rfl rfl)) hget rfl rfl,
      fun hlogged => ?_⟩
    obtain ⟨i, b, hactive, hb, hname⟩ := h.session hlogged
    have hlt := (List.getElem?_eq_some_iff.mp hget).1
    by_cases hown : target = i
    · subst hown
      have hsame : b = a := Option.some.inj (hb.symm.trans hget)
      subst hsame
      exact ⟨target, _, hactive, getElem?_set_self hlt, hname⟩
    · exact ⟨i, b, hactive, (getElem?_set_ne hown).trans hb, hname⟩

/-- Every event keeps a state good. -/
theorem Good.turn (h : Good s) (hentered : Entered s event) (hturn : Turn deriveHash s event s') :
    Good s' := by
  have hidle : ∀ {t : State}, t.screenMode = .hidden ∨ t.screenMode = .loginPassword →
      ¬ t.asksPassword := by
    intro t ht
    rcases ht with ht | ht <;> simp [State.asksPassword, ht]
  cases hturn with
  | idle hsession hprompt =>
    refine h.of_session hsession fun hasks => ?_
    have hscreen : s'.screenMode = s.screenMode := congrArg Prompt.screenMode hprompt
    rw [show s'.passwordAction = s.passwordAction from congrArg Prompt.passwordAction hprompt,
      show s'.passwordTarget = s.passwordTarget from congrArg Prompt.passwordTarget hprompt]
    rw [State.asksPassword, hscreen] at hasks
    exact h.prompt hasks
  | asked hsession hscreen =>
    exact h.of_session hsession fun hasks => absurd hasks (hidle (.inr hscreen))
  | opened hsession hprompt hmay =>
    next action target =>
    refine h.of_session hsession fun _ => ?_
    rw [show s'.passwordAction = action from congrArg Prompt.passwordAction hprompt,
      show s'.passwordTarget = target from congrArg Prompt.passwordTarget hprompt]
    exact hmay
  | typed hsession hasks hafter haction htarget =>
    refine h.of_session hsession fun _ => ?_
    rw [haction, htarget]
    exact h.prompt hasks
  | closed hsession hasks hscreen =>
    exact h.of_session hsession fun hasks => absurd hasks (hidle (.inl hscreen))
  | entered hscreen hfound hget hmatches hsession hafter =>
    next i a =>
    have hsound : s'.session.Sound := by
      rw [hsession]
      exact ⟨h.database, fun _ => ⟨i, a, rfl, hget, rfl⟩⟩
    exact ⟨hsound.database, hsound.session, fun hasks => absurd hasks (hidle (.inl hafter))⟩
  | saved hpersists hsaves hsession hafter =>
    have hsound := h.persists hpersists
    rw [← hsession] at hsound
    exact ⟨hsound.database, hsound.session,
      fun hasks => absurd hasks (hidle (.inl (hafter hentered)))⟩

/-- In a blocked state nothing happens. -/
theorem Blocked.step (h : Blocked s) {event : Event} (hentered : Entered s event) :
    step deriveHash s event = s := by
  cases event with
  | command command args disk => exact absurd (h.screenMode.symm.trans hentered) (by decide)
  | key key disk salt =>
    change authHandleKey deriveHash key disk salt s = s
    rw [authHandleKey, h.databaseValid]
    rfl

/-- In a blocked state nothing is saved. -/
theorem Blocked.persists (h : Blocked s) (hentered : Entered s event) {after : Session} :
    ¬ Persists deriveHash s event after := by
  intro hpersists
  have hidle : ¬ s.asksPassword := by
    simp [State.asksPassword, h.screenMode]
  cases hpersists with
  | loginOn | loginOff | removed | renamed =>
    exact absurd (h.screenMode.symm.trans hentered) (by decide)
  | added hasks | changed hasks => exact hidle hasks

/-- Every reachable state is good or blocked. -/
theorem Reachable.good (h : Reachable deriveHash s) : Good s ∨ Blocked s := by
  induction h with
  | start boot globals => exact (authInit_started boot globals).imp Started.good id
  | step _ hentered ih =>
    rcases ih with hgood | hblocked
    · exact .inl (hgood.turn hentered (step_turn hgood.database.wellFormed.length_le _))
    · rw [hblocked.step hentered]
      exact .inr hblocked

end NasuaOS.Authentication
