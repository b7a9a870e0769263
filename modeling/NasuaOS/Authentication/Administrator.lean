import NasuaOS.Authentication.Sessions

/-!
# Keeping an administrator

`src/kernel_64bit/src/system/authentication/authentication.cpp:157–160,1217–1384`. What one event
can do to the accounts is said once, as a relation; who administrates the system is then read off
that relation. Rights are tied to the name `root`, which `userdel` protects and `usermod` does not.
-/

namespace NasuaOS.Authentication

open Libc List

variable {deriveHash : Password → Salt → Hash}
variable {s s' : State}

/-- An event is a `usermod` that is carried out: its arguments are two names, the session is the
account's own or an administrator's, the new name is free, and the disk keeps the change. -/
inductive Renames (s : State) : Event → Username → Username → Prop
  | usermod {args : CString} {disk : Storage} {oldName newName : Username} {current target : Nat}
    (hargs : renameArguments args.val = some (oldName, newName))
    (hcurrent : s.currentAccount = some current)
    (htarget : findAccount s.accounts oldName = some target)
    (hright : isAdministrator s.accounts (some current) = true ∨ target = current)
    (hne : oldName ≠ newName) (hfresh : findAccount s.accounts newName = none)
    (havailable : s.storageAvailable = true) (hsaves : disk.saves = true) :
    Renames s (.command .usermod args disk) oldName newName

/-- What one event can do to the accounts. -/
inductive Change (s : State) (event : Event) : List Account → Prop
  | same : Change s event s.accounts
  | added (a : Account) (hfresh : findAccount s.accounts a.name = none)
    (hroom : s.accounts.length < maxUsers) (hplain : a.administrator = false) :
    Change s event (s.accounts ++ [a])
  | rehashed (i : Nat) (a b : Account) (hget : s.accounts[i]? = some a) (hname : b.name = a.name)
    (hflag : b.administrator = a.administrator) : Change s event (s.accounts.set i b)
  | removed (i : Nat) (a : Account) (hget : s.accounts[i]? = some a) (hname : a.name ≠ root) :
    Change s event (s.accounts.eraseIdx i)
  | renamed (i : Nat) (a : Account) (newName : Username) (hget : s.accounts[i]? = some a)
    (hfresh : findAccount s.accounts newName = none) (h : Renames s event a.name newName) :
    Change s event (s.accounts.set i { a with name := newName })

variable {a : Account} {event : Event} {accounts : List Account}

private theorem Change.of_session (h : s'.session.database.accounts = s.accounts) :
    Change s event s'.accounts := by
  rw [show s'.accounts = s.accounts from h]
  exact .same

private theorem usermod_change (hlength : s.accounts.length ≤ maxUsers) (args : CString)
    (disk : Storage) :
    Change s (.command .usermod args disk) (usermod args.val disk s).accounts := by
  obtain ⟨hsession, -⟩ | ⟨current, target, a, newName, heq, hget, hargs, hcurrent, hfound, hright,
    hne, hfresh, havailable⟩ := usermod_cases args.val disk s
  · exact .of_session (congrArg (fun x => x.database.accounts) hsession)
  · have hsession := congrArg (fun x => x.database.accounts)
      (renameAccount_session hlength hget current newName disk).2
    rw [heq]
    split at hsession
    · next hsaves =>
      rw [show State.accounts _ = _ from hsession]
      exact .renamed target a newName hget hfresh
        (.usermod hargs hcurrent hfound hright hne hfresh havailable hsaves)
    · exact .of_session hsession

private theorem Turn.change (h : Turn deriveHash s event s')
    (hevent : ∀ args disk, event ≠ .command .usermod args disk) : Change s event s'.accounts := by
  cases h with
  | idle hsession | asked hsession | opened hsession | typed hsession | closed hsession =>
    exact .of_session (congrArg (fun x => x.database.accounts) hsession)
  | entered _ _ _ _ hsession => exact .of_session (congrArg (fun x => x.database.accounts) hsession)
  | saved hpersists hsaves hsession =>
    have haccounts : s'.accounts = _ := congrArg (fun x => x.database.accounts) hsession
    rw [haccounts]
    cases hpersists with
    | loginOn | loginOff => exact .same
    | removed hadmin hfound hroot hcurrent =>
      obtain ⟨a, hget, -⟩ := findAccount_eq_some hfound
      rw [State.account_eq hget] at hroot
      exact .removed _ a hget hroot
    | renamed => exact absurd rfl (hevent _ _)
    | added hasks haction hadmin hfresh hroom => exact .added _ hfresh hroom rfl
    | changed hasks haction hfound hget => exact .rehashed _ _ _ hget rfl rfl

private theorem step_change (hlength : s.accounts.length ≤ maxUsers) (event : Event) :
    Change s event (step deriveHash s event).accounts := by
  by_cases hevent : ∃ args disk, event = .command .usermod args disk
  · obtain ⟨args, disk, rfl⟩ := hevent
    exact usermod_change hlength args disk
  · exact (step_turn hlength event).change fun args disk h => hevent ⟨args, disk, h⟩

private theorem Renames.step {event : Event} {oldName newName : Username}
    (h : Renames s event oldName newName) (hlength : s.accounts.length ≤ maxUsers) :
    ∃ i a, s.accounts[i]? = some a ∧ a.name = oldName ∧
      (step deriveHash s event).accounts = s.accounts.set i { a with name := newName } := by
  cases h with
  | usermod hargs hcurrent htarget hright hne hfresh havailable hsaves =>
    next args disk current target =>
    obtain ⟨a, hget, rfl⟩ := findAccount_eq_some htarget
    refine ⟨target, a, hget, rfl, ?_⟩
    change (Authentication.usermod args.val disk s).accounts = _
    rw [Authentication.usermod]
    simp only [hargs, hcurrent, htarget]
    have hsession := (renameAccount_session hlength hget current newName disk).2
    rw [if_pos hsaves] at hsession
    rw [if_neg, if_neg hne, if_neg, if_neg]
    · exact congrArg (fun x => x.database.accounts) hsession
    · simp [havailable]
    · simp [hfresh]
    · simpa [or_iff_not_imp_left] using hright

/-- Some account satisfies `is_administrator`. -/
def Administrated (accounts : List Account) : Prop :=
  ∃ i, isAdministrator accounts (some i) = true

/-- An account named `root` has the flag. -/
def RootAdministers (accounts : List Account) : Prop :=
  ∃ a ∈ accounts, a.name = root ∧ a.administrator = true

private theorem administrated_iff : Administrated accounts ↔ RootAdministers accounts := by
  constructor
  · rintro ⟨i, hi⟩
    simp only [isAdministrator, Option.bind_some] at hi
    split at hi
    · cases hi
    · next a hget =>
      rw [Bool.and_eq_true, beq_iff_eq] at hi
      exact ⟨a, mem_of_getElem? hget, hi.2, hi.1⟩
  · rintro ⟨a, ha, hname, hflag⟩
    obtain ⟨i, hget⟩ := mem_iff_getElem?.mp ha
    refine ⟨i, ?_⟩
    simp [isAdministrator, hget, hname, hflag]

/-- What every table of accounts satisfies: it fits and its names are distinct. -/
structure WellFormed (accounts : List Account) : Prop where
  length_le : accounts.length ≤ maxUsers
  distinct : DistinctNames accounts

/-- A valid database is well formed. -/
theorem ValidDatabase.wellFormed {db : Database} (h : ValidDatabase deriveHash db) :
    WellFormed db.accounts := by
  cases h with
  | defaults rootSalt userSalt =>
    refine ⟨Nat.le_add_left 2 14, ?_⟩
    change [root, user].Nodup
    decide
  | file h => exact ⟨parseDatabase_length h, parseDatabase_distinct h⟩

private theorem DistinctNames.index_eq (h : DistinctNames accounts) {i j : Nat} {b : Account}
    (hi : accounts[i]? = some a) (hj : accounts[j]? = some b) (hname : a.name = b.name) :
    i = j := by
  have hlt : i < (accounts.map Account.name).length := by
    rw [length_map]
    exact (List.getElem?_eq_some_iff.mp hi).1
  apply (getElem?_inj hlt h).mp
  rw [getElem?_map, getElem?_map, hi, hj, Option.map_some, Option.map_some, hname]

/-- A name that no account has replaces another one. -/
theorem DistinctNames.set (h : DistinctNames accounts) (hfresh : findAccount accounts a.name = none)
    (i : Nat) : DistinctNames (accounts.set i a) := by
  rw [DistinctNames, map_set]
  apply List.Nodup.set h
  intro hmem
  obtain ⟨b, hb, hname⟩ := mem_map.mp hmem
  exact findAccount_eq_none.mp hfresh b hb hname

/-- Every change of the accounts keeps them well formed. -/
theorem WellFormed.change (h : WellFormed s.accounts) (hchange : Change s event accounts) :
    WellFormed accounts := by
  cases hchange with
  | same => exact h
  | added a hfresh hroom hplain =>
    refine ⟨?_, h.distinct.append hfresh⟩
    rw [length_append, length_singleton]
    exact hroom
  | rehashed i a b hget hname hflag =>
    refine ⟨by rw [length_set]; exact h.length_le, ?_⟩
    have hsame : (s.accounts.map Account.name).set i b.name = s.accounts.map Account.name := by
      obtain ⟨hlt, rfl⟩ := List.getElem?_eq_some_iff.mp hget
      rw [hname, ← getElem_map Account.name]
      · exact set_getElem_self _
      · rwa [length_map]
    rw [DistinctNames, map_set, hsame]
    exact h.distinct
  | removed i a hget hname =>
    refine ⟨(length_eraseIdx_le _ _).trans h.length_le, ?_⟩
    exact h.distinct.sublist ((eraseIdx_sublist _ _).map _)
  | renamed i a newName hget hfresh hrenames =>
    refine ⟨by rw [length_set]; exact h.length_le, ?_⟩
    exact h.distinct.set hfresh i

private theorem RootAdministers.change (h : RootAdministers s.accounts) (hchange : Change s event accounts)
    (hkeeps : ∀ newName, ¬ Renames s event root newName) : RootAdministers accounts := by
  obtain ⟨r, hr, hname, hflag⟩ := h
  obtain ⟨j, hj⟩ := mem_iff_getElem?.mp hr
  have hjlt := (List.getElem?_eq_some_iff.mp hj).1
  cases hchange with
  | same => exact ⟨r, hr, hname, hflag⟩
  | added a => exact ⟨r, mem_append_left _ hr, hname, hflag⟩
  | rehashed i a b hget hbname hbflag =>
    by_cases hij : i = j
    · subst hij
      rw [hj, Option.some.injEq] at hget
      subst hget
      exact ⟨b, mem_set hjlt b, hbname.trans hname, hbflag.trans hflag⟩
    · exact ⟨r, mem_of_getElem? ((getElem?_set_ne hij).trans hj), hname, hflag⟩
  | removed i a hget ha =>
    have hij : j ≠ i := by
      rintro rfl
      rw [hj, Option.some.injEq] at hget
      exact ha (hget ▸ hname)
    exact ⟨r, mem_eraseIdx_iff_getElem?.mpr ⟨j, hij, hj⟩, hname, hflag⟩
  | renamed i a newName hget hfresh hrenames =>
    have hij : i ≠ j := by
      rintro rfl
      rw [hj, Option.some.injEq] at hget
      subst hget
      exact hkeeps newName (hname ▸ hrenames)
    exact ⟨r, mem_of_getElem? ((getElem?_set_ne hij).trans hj), hname, hflag⟩

private theorem Renames.not_rootAdministers {newName : Username} (h : Renames s event root newName)
    (hs : WellFormed s.accounts) :
    ¬ RootAdministers (Authentication.step deriveHash s event).accounts := by
  obtain ⟨i, a, hget, hname, haccounts⟩ := @Renames.step deriveHash s event _ _ h hs.length_le
  have hne : newName ≠ root := by
    cases h with
    | usermod _ _ _ _ hne => exact fun he => hne he.symm
  rw [haccounts]
  rintro ⟨r, hr, hrname, -⟩
  obtain ⟨j, hj⟩ := mem_iff_getElem?.mp hr
  by_cases hij : i = j
  · subst hij
    rw [getElem?_set_self (List.getElem?_eq_some_iff.mp hget).1, Option.some.injEq] at hj
    subst hj
    exact hne hrname
  · -- another account named `root` would share the name of the renamed one
    rw [getElem?_set_ne hij] at hj
    exact hij (hs.distinct.index_eq hget hj (hname.trans hrname.symm))

private theorem step_rootAdministers_iff (hs : WellFormed s.accounts)
    (h : RootAdministers s.accounts) (event : Event) :
    RootAdministers (step deriveHash s event).accounts ↔
      ∀ newName, ¬ Renames s event root newName := by
  constructor
  · intro hafter newName hrenames
    exact hrenames.not_rootAdministers hs hafter
  · intro hkeeps
    exact h.change (step_change hs.length_le event) hkeeps

private theorem WellFormed.run (h : WellFormed s.accounts) (events : List Event) :
    WellFormed (run deriveHash s events).accounts := by
  induction events generalizing s with
  | nil => exact h
  | cons event events ih => exact ih (h.change (step_change h.length_le event))

private theorem run_take_succ (s : State) {events : List Event} {n : Nat}
    (h : events[n]? = some event) : run deriveHash s (events.take (n + 1)) =
      step deriveHash (run deriveHash s (events.take n)) event := by
  rw [run, take_add_one, h, Option.toList_some, foldl_append]
  rfl

/-- From a valid database, every state of a run has an administrator exactly when the database has
one, and no event of the run gives `root` another name. -/
theorem administrator_kept_iff {db : Database} (hdb : ValidDatabase deriveHash db)
    (hs : s.accounts = db.accounts) (events : List Event) :
    (∀ n, Administrated (run deriveHash s (events.take n)).accounts) ↔
      RootAdministers db.accounts ∧ ∀ n event, events[n]? = some event →
        ∀ newName, ¬ Renames (run deriveHash s (events.take n)) event root newName := by
  have hwell : WellFormed s.accounts := hs ▸ hdb.wellFormed
  simp only [administrated_iff]
  constructor
  · intro hall
    refine ⟨hs ▸ hall 0, ?_⟩
    intro n event hevent
    rw [← step_rootAdministers_iff (hwell.run _) (hall n), ← run_take_succ s hevent]
    exact hall (n + 1)
  · rintro ⟨hroot, hkeeps⟩ n
    induction n with
    | zero => exact hs ▸ hroot
    | succ n ih =>
      cases hevent : events[n]? with
      | none =>
        have hlength := getElem?_eq_none_iff.mp hevent
        rw [take_of_length_le (by omega)]
        rwa [take_of_length_le hlength] at ih
      | some event =>
        rw [run_take_succ s hevent, step_rootAdministers_iff (hwell.run _) ih]
        exact hkeeps n event hevent

/-- A stand-in for the password hash: the first bytes of the password. -/
def plainHash (password : Password) (_ : Salt) : Hash :=
  Vector.ofFn fun i => password.val.getD i.val 0

/-- A formatted disk that keeps what is written. -/
def formattedDisk : Storage := ⟨false, true, true, true⟩

/-- The globals before `auth_init`. -/
def initialGlobals : State where
  accounts := []
  databaseValid := false
  storageAvailable := false
  loginEnabled := false
  automaticLogin := user
  input := user
  passwordInput := noPassword
  pendingPassword := noPassword
  passwordTarget := noName
  statusMessage := ""
  screenMode := .hidden
  passwordAction := .none
  switchingUser := false
  currentUserValid := false
  activeAccountIndex := none
  userName := user
  printed := []

/-- The first start: a formatted disk without an account file. -/
def firstStart : State :=
  (authInit plainHash ⟨formattedDisk, none, none, false, Vector.replicate _ 0, Vector.replicate _ 0⟩
    initialGlobals).2

/-- Become `root` with its initial password. -/
def becomeRoot : List Event :=
  .command .su (cstring (ascii ['r', 'o', 'o', 't'])) formattedDisk ::
    (ascii ['a', 'd', 'm', 'i', 'n', '\n']).map fun key =>
      .key key formattedDisk (Vector.replicate _ 0)

/-- Rename an account. -/
def rename (args : List Char) : Event :=
  .command .usermod (cstring (ascii args)) formattedDisk

/-- Renaming `user` instead of `root`: both sides hold along this run. -/
theorem administrator_kept_iff_firstStart :
    (∀ n, Administrated (run plainHash firstStart
        ((becomeRoot ++ [rename ['u', 's', 'e', 'r', ' ', 'b', 'o', 's', 's']]).take n)).accounts) ↔
      RootAdministers
        (seedDefaults plainHash (Vector.replicate _ 0) (Vector.replicate _ 0)).accounts ∧
      ∀ n event, (becomeRoot ++
          [rename ['u', 's', 'e', 'r', ' ', 'b', 'o', 's', 's']])[n]? = some event →
        ∀ newName, ¬ Renames (run plainHash firstStart
          ((becomeRoot ++ [rename ['u', 's', 'e', 'r', ' ', 'b', 'o', 's', 's']]).take n))
          event root newName :=
  administrator_kept_iff (.defaults _ _) (by decide +kernel) _

/-- `root` renames itself: no account satisfies `is_administrator` any more. -/
theorem root_renamed_away :
    Administrated (run plainHash firstStart becomeRoot).accounts ∧
    ∀ i, isAdministrator (run plainHash firstStart
      (becomeRoot ++ [rename ['r', 'o', 'o', 't', ' ', 'b', 'o', 's', 's']])).accounts (some i) =
      false := by
  have hnames : (run plainHash firstStart
      (becomeRoot ++ [rename ['r', 'o', 'o', 't', ' ', 'b', 'o', 's', 's']])).accounts.map
      (fun a => (a.name.val, a.administrator)) =
      [(ascii ['b', 'o', 's', 's'], true), (ascii ['u', 's', 'e', 'r'], false)] := by
    decide +kernel
  refine ⟨⟨0, by decide +kernel⟩, ?_⟩
  intro i
  rw [← Bool.not_eq_true]
  intro hi
  obtain ⟨a, ha, hname, -⟩ := administrated_iff.mp ⟨i, hi⟩
  have hmem := mem_map_of_mem (f := fun a : Account => (a.name.val, a.administrator)) ha
  rw [hnames, hname] at hmem
  revert hmem
  cases a.administrator <;> decide

end NasuaOS.Authentication
