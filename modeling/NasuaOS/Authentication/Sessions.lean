import NasuaOS.Authentication.Commands
import Mathlib.Data.List.InsertIdx

/-!
# Sessions and prompts

`src/kernel_64bit/src/system/authentication/authentication.cpp:493–722,811–881,1078–1387`. What a step
does to the accounts, the settings, the session and the prompt is said once, as a relation: a step
leaves them, opens a prompt, goes on in one, closes one, logs in, or saves. `Persists` lists the
places from which `persist_database` is called, with what is to be saved there.
-/

namespace NasuaOS.Authentication

open Base Libc List

variable {deriveHash : Password → Salt → Hash}
variable {s s' : State}

/-- The disk keeps what is written in this step. -/
def Storage.saves (disk : Storage) : Bool :=
  !disk.storageIsRam && disk.clawfsExists && disk.etcDirectory && disk.fileWritten

private theorem persistDatabase_fst (disk : Storage) (h : s.accounts.length ≤ maxUsers) :
    (persistDatabase disk s).1 = disk.saves := by
  have hfits : (serializeDatabase (State.database { s with storageAvailable := true })).isNone =
      false := by
    rw [Option.isNone_eq_false_iff]
    exact serializeDatabase_isSome h
  unfold persistDatabase Storage.saves
  cases disk.storageIsRam <;> cases disk.clawfsExists <;> cases disk.etcDirectory <;>
    cases disk.fileWritten <;> simp [hfits]

variable {a : Account} {args : CString} {event : Event}

/-- An account that is in the table. -/
theorem State.account_eq {i : Nat} (h : s.accounts[i]? = some a) : s.account i = a := by
  rw [State.account, getD_eq_getElem?_getD, h, Option.getD_some]

/-- The accounts, the settings and who is logged in. -/
@[ext] structure Session where
  database : Database
  databaseValid : Bool
  activeAccountIndex : Option Nat
  userName : Username
  currentUserValid : Bool

/-- The prompt that is shown, and what it is for. -/
@[ext] structure Prompt where
  screenMode : ScreenMode
  passwordAction : PasswordAction
  passwordTarget : Username

namespace State

/-- The session of a state. -/
def session (s : State) : Session :=
  ⟨s.database, s.databaseValid, s.activeAccountIndex, s.userName, s.currentUserValid⟩

/-- The prompt of a state. -/
def prompt (s : State) : Prompt := ⟨s.screenMode, s.passwordAction, s.passwordTarget⟩

/-- A password is asked for that is to be set. -/
def asksPassword (s : State) : Prop :=
  s.screenMode = .newPassword ∨ s.screenMode = .confirmPassword

end State

/-- What the disk answers during an event. -/
def Event.disk : Event → Storage
  | .command _ _ disk => disk
  | .key _ disk _ => disk

/-- Commands are entered only while no prompt captures the input. -/
def Entered (s : State) : Event → Prop
  | .command _ _ _ => s.screenMode = .hidden
  | .key _ _ _ => True

/-- `persist_database` is called during an event, and this is the session if it succeeds. -/
inductive Persists (deriveHash : Password → Salt → Hash)
    (s : State) : Event → Session → Prop
  /-- `login --on`. -/
  | loginOn {args : CString} {disk : Storage} (hargs : args.val = ascii ['-', '-', 'o', 'n'])
    (hadmin : s.administrates = true) :
    Persists deriveHash s (.command .login args disk)
      { s.session with database := { s.database with loginEnabled := true } }
  /-- `login --off`. -/
  | loginOff {args : CString} {disk : Storage} (hargs : args.val = ascii ['-', '-', 'o', 'f', 'f'])
    (hadmin : s.administrates = true) :
    Persists deriveHash s (.command .login args disk)
      { s.session with
        database := { s.database with loginEnabled := false, automaticLogin := s.userName } }
  /-- `userdel`. -/
  | removed {args : CString} {disk : Storage} {name : Username} {target : Nat}
    (hadmin : s.administrates = true) (hfound : findAccount s.accounts name = some target)
    (hroot : (s.account target).name ≠ root) (hcurrent : s.currentAccount ≠ some target) :
    Persists deriveHash s (.command .userdel args disk) (withoutAccount target name s).session
  /-- `usermod`. -/
  | renamed {args : CString} {disk : Storage} {oldName newName : Username} {current target : Nat}
    (hvalid : validUsername newName = true) (hcurrent : s.currentAccount = some current)
    (hfound : findAccount s.accounts oldName = some target)
    (hfresh : findAccount s.accounts newName = none) :
    Persists deriveHash s (.command .usermod args disk)
      { (withName target oldName newName s).session with
        userName := if target = current then newName else s.userName }
  /-- The password of a new account was confirmed. -/
  | added {disk : Storage} {salt : Salt} (hasks : s.asksPassword)
    (haction : s.passwordAction = .addUser) (hadmin : s.administrates = true)
    (hfresh : findAccount s.accounts s.passwordTarget = none)
    (hroom : s.accounts.length < maxUsers) :
    Persists deriveHash s (.key 10 disk salt)
      { s.session with
        database := { s.database with
          accounts := s.accounts ++
            [⟨s.passwordTarget, salt, deriveHash s.pendingPassword salt, false⟩] } }
  /-- A new password was confirmed. -/
  | changed {disk : Storage} {salt : Salt} {target : Nat} {a : Account}
    (hasks : s.asksPassword) (haction : s.passwordAction ≠ .addUser)
    (hfound : findAccount s.accounts s.passwordTarget = some target)
    (hget : s.accounts[target]? = some a) :
    Persists deriveHash s (.key 10 disk salt)
      { s.session with
        database := { s.database with
          accounts := s.accounts.set target
            { a with salt := salt, passwordHash := deriveHash s.pendingPassword salt } } }

/-- A new password may be asked for: for a new account with a valid name, or for an account by an
administrator or by itself. -/
inductive MayAsk (s : State) : PasswordAction → Username → Prop
  | add {name : Username} (hvalid : validUsername name = true) : MayAsk s .addUser name
  | change {name : Username} {current target : Nat} (hcurrent : s.currentAccount = some current)
    (hfound : findAccount s.accounts name = some target)
    (hright : s.administrates = true ∨ target = current) : MayAsk s .changePassword name

/-- An event asks for the password of an account: `su`, `login` without a switch, or the return key
behind the name of an account. -/
def AsksLogin (s : State) : Event → Prop
  | .command command args _ => command = .su ∨ command = .login ∧ args.val = []
  | .key _ _ _ => s.screenMode = .loginUsername

/-- What one event can do. -/
inductive Turn (deriveHash : Password → Salt → Hash) (s : State)
    (event : Event) (s' : State) : Prop
  /-- Nothing that matters here. -/
  | idle (hsession : s'.session = s.session) (hprompt : s'.prompt = s.prompt)
  /-- The password of an account is asked for. -/
  | asked (hsession : s'.session = s.session) (hscreen : s'.screenMode = .loginPassword)
    (hevent : AsksLogin s event)
  /-- A new password is asked for. -/
  | opened (hsession : s'.session = s.session) {action : PasswordAction} {target : Username}
    (hprompt : s'.prompt = ⟨.newPassword, action, target⟩) (hmay : MayAsk s action target)
  /-- The prompt for a new password goes on. -/
  | typed (hsession : s'.session = s.session) (hasks : s.asksPassword) (hafter : s'.asksPassword)
    (haction : s'.passwordAction = s.passwordAction) (htarget : s'.passwordTarget = s.passwordTarget)
  /-- The prompt is closed and nothing is changed. -/
  | closed (hsession : s'.session = s.session) (hasks : s.asksPassword)
    (hscreen : s'.screenMode = .hidden)
  /-- Somebody logs in. -/
  | entered {i : Nat} {a : Account} (hscreen : s.screenMode = .loginPassword)
    (hfound : findAccount s.accounts s.input = some i) (hget : s.accounts[i]? = some a)
    (hmatches : passwordMatches deriveHash a s.passwordInput = true)
    (hsession : s'.session =
      { s.session with activeAccountIndex := some i, userName := a.name, currentUserValid := true })
    (hafter : s'.screenMode = .hidden)
  /-- A change is saved. -/
  | saved {after : Session} (hpersists : Persists deriveHash s event after)
    (hsaves : event.disk.saves = true) (hsession : s'.session = after)
    (hafter : Entered s event → s'.screenMode = .hidden)

/-- Saving leaves the session. -/
theorem persistDatabase_session (disk : Storage) (s : State) :
    (persistDatabase disk s).2.session = s.session := by
  simp only [persistDatabase]
  repeat (first | rfl | split)

/-- Saving succeeds when the disk keeps it and the accounts are no more than the table holds; it
leaves session and prompt. -/
theorem persistDatabase_eq (disk : Storage) (h : s.accounts.length ≤ maxUsers) :
    ∃ u, persistDatabase disk s = (disk.saves, u) ∧ u.session = s.session ∧ u.prompt = s.prompt := by
  refine ⟨_, Prod.ext (persistDatabase_fst disk h) rfl, persistDatabase_session disk s, ?_⟩
  simp only [persistDatabase]
  repeat (first | rfl | split)

/-- Who is logged in is part of the session. -/
theorem currentAccount_congr (h : s'.session = s.session) :
    s'.currentAccount = s.currentAccount := by
  cases s
  cases s'
  obtain ⟨⟨rfl, rfl, rfl⟩, rfl, rfl, rfl, rfl⟩ := h
  rfl

/-- So is whether an administrator is logged in. -/
theorem administrates_congr (h : s'.session = s.session) : s'.administrates = s.administrates := by
  have haccounts : s'.accounts = s.accounts := congrArg (fun x => x.database.accounts) h
  rw [State.administrates, State.administrates, currentAccount_congr h, haccounts]

/-- An account that is logged in has the name of the session. -/
theorem State.currentAccount_eq {i : Nat} (h : s.currentAccount = some i) :
    s.currentUserValid = true ∧ s.activeAccountIndex = some i ∧
      ∃ a, s.accounts[i]? = some a ∧ s.userName = a.name := by
  rw [State.currentAccount] at h
  split at h
  · cases h
  · next j hactive =>
    split at h
    · next hcurrent =>
      obtain ⟨hvalid, hlt, hname⟩ := hcurrent
      cases h
      refine ⟨hvalid, hactive, s.accounts[i], getElem?_eq_getElem hlt, ?_⟩
      rw [hname, State.account_eq (getElem?_eq_getElem hlt)]
    · cases h

private theorem hidden_congr (h : s'.prompt = s.prompt) (hhidden : s.screenMode = .hidden) :
    s'.screenMode = .hidden :=
  (congrArg Prompt.screenMode h).trans hhidden

private theorem saveLogin_turn {disk : Storage} (t : State)
    (hpersists : Persists deriveHash s (.command .login args disk) t.session)
    (hprompt : t.prompt = s.prompt) (hback : { t.session with database := s.database } = s.session)
    (haccounts : t.accounts = s.accounts) (hlength : s.accounts.length ≤ maxUsers) (done : String) :
    Turn deriveHash s (.command .login args disk)
      (saveLogin disk s.loginEnabled s.automaticLogin done t) := by
  obtain ⟨u, hu, hsession, hkept⟩ := @persistDatabase_eq (t.setStatus "") disk
    (haccounts ▸ hlength)
  have hkept : u.prompt = s.prompt := hkept.trans hprompt
  have hsame : u.accounts = s.accounts :=
    (congrArg (fun x => x.database.accounts) hsession).trans haccounts
  simp only [saveLogin, hu]
  split
  · next hsaves => exact .saved hpersists hsaves hsession (hidden_congr hkept)
  · refine .idle ?_ hkept
    change { u.session with database := ⟨s.loginEnabled, s.automaticLogin, u.accounts⟩ } = s.session
    rw [hsession, hsame]
    exact hback

private theorem login_turn (hlength : s.accounts.length ≤ maxUsers) (args : CString)
    (disk : Storage) : Turn deriveHash s (.command .login args disk) (login args.val disk s) := by
  rw [login]
  split
  · next hargs =>
    split
    · exact .idle rfl rfl
    · next hadmin =>
      have hpersists : Persists deriveHash s (.command .login args disk) _ :=
        .loginOn hargs (by simpa using hadmin)
      exact saveLogin_turn { s with loginEnabled := true } hpersists rfl rfl rfl hlength _
  split
  · next hargs =>
    split
    · exact .idle rfl rfl
    · next hadmin =>
      have hpersists : Persists deriveHash s (.command .login args disk) _ :=
        .loginOff hargs (by simpa using hadmin)
      exact saveLogin_turn { s with loginEnabled := false, automaticLogin := s.userName } hpersists
        rfl rfl rfl hlength _
  split
  · next hargs => exact .asked rfl rfl (.inr ⟨rfl, hargs⟩)
  · exact .idle rfl rfl

private theorem beginPasswordChange_turn {action : PasswordAction} {target : Username}
    (hmay : MayAsk s action target) (disk : Storage) :
    Turn deriveHash s event (beginPasswordChange action target disk s) := by
  simp only [beginPasswordChange]
  split
  · exact .idle rfl rfl
  · exact .opened rfl rfl hmay

private theorem useradd_turn (args : Bytes) (disk : Storage) :
    Turn deriveHash s event (useradd args disk s) := by
  rw [useradd]
  split
  · exact .idle rfl rfl
  · next name hname =>
    split
    · exact .idle rfl rfl
    split
    · exact .idle rfl rfl
    split
    · exact .idle rfl rfl
    · exact beginPasswordChange_turn (.add (Option.filter_eq_some_iff.mp hname).2) disk

private theorem passwd_turn (args : Bytes) (disk : Storage) :
    Turn deriveHash s event (passwd args disk s) := by
  simp only [passwd]
  split
  · exact .idle rfl rfl
  · next given _ =>
    split
    · exact .idle rfl rfl
    · next current hcurrent =>
      split
      · exact .idle rfl rfl
      · next target hfound =>
        split
        · exact .idle rfl rfl
        · next hright =>
          refine beginPasswordChange_turn (.change hcurrent hfound ?_) disk
          rw [State.administrates, hcurrent]
          simpa [or_iff_not_imp_left] using hright

section

variable (hlength : s.accounts.length ≤ maxUsers)

include hlength

private theorem deleteAccount_turn {disk : Storage} {target : Nat} {name : Username}
    (hget : s.accounts[target]? = some a)
    (hpersists : Persists deriveHash s (.command .userdel args disk)
      (withoutAccount target name s).session) :
    Turn deriveHash s (.command .userdel args disk) (deleteAccount target name disk s) := by
  obtain ⟨u, hu, hsession, hprompt⟩ := @persistDatabase_eq (withoutAccount target name s) disk
    ((length_eraseIdx_le _ _).trans hlength)
  have haccounts : u.accounts = s.accounts.eraseIdx target :=
    congrArg (fun x => x.database.accounts) hsession
  simp only [deleteAccount, hu]
  split
  · next hsaves => exact .saved hpersists hsaves hsession (hidden_congr hprompt)
  · refine .idle ?_ hprompt
    have hback : (s.accounts.eraseIdx target).insertIdx target (s.account target) = s.accounts := by
      obtain ⟨hlt, hget'⟩ := List.getElem?_eq_some_iff.mp hget
      rw [State.account_eq hget, ← hget']
      exact insertIdx_eraseIdx_getElem hlt
    change { u.session with
      database := ⟨u.session.database.loginEnabled, s.automaticLogin,
        u.accounts.insertIdx target (s.account target)⟩
      activeAccountIndex := s.activeAccountIndex } = s.session
    rw [hsession, haccounts, hback]
    rfl

private theorem userdel_turn (args : CString) (disk : Storage) :
    Turn deriveHash s (.command .userdel args disk) (userdel args.val disk s) := by
  rw [userdel]
  split
  · exact .idle rfl rfl
  · next name hname =>
    split
    · exact .idle rfl rfl
    · next hadmin =>
      split
      · exact .idle rfl rfl
      · next target hfound =>
        split
        · exact .idle rfl rfl
        split
        · exact .idle rfl rfl
        split
        · exact .idle rfl rfl
        · next hroot hcurrent _ =>
          obtain ⟨a, hget, -⟩ := findAccount_eq_some hfound
          refine deleteAccount_turn hlength hget ?_
          exact .removed (by simpa using hadmin) hfound hroot hcurrent

/-- Renaming an account leaves the prompt, and the session as well if the disk does not keep it. -/
theorem renameAccount_session {target : Nat} (hget : s.accounts[target]? = some a) (current : Nat)
    (newName : Username) (disk : Storage) :
    (renameAccount current target a.name newName disk s).prompt = s.prompt ∧
      (renameAccount current target a.name newName disk s).session =
        if disk.saves then
          { s.session with
            database := ⟨s.loginEnabled, (withName target a.name newName s).automaticLogin,
              s.accounts.set target { a with name := newName }⟩
            userName := if target = current then newName else s.userName }
        else s.session := by
  obtain ⟨hlt, hget'⟩ := List.getElem?_eq_some_iff.mp hget
  have hnamed : (withName target a.name newName s).accounts =
      s.accounts.set target { a with name := newName } := by
    rw [withName, State.account_eq hget]
  obtain ⟨u, hu, hsession, hprompt⟩ := @persistDatabase_eq (withName target a.name newName s) disk
    (by rwa [hnamed, length_set])
  have haccounts : u.accounts = s.accounts.set target { a with name := newName } :=
    (congrArg (fun x => x.database.accounts) hsession).trans hnamed
  rw [← hnamed]
  simp only [renameAccount, hu]
  split
  · by_cases hown : target = current
    · rw [if_pos hown, if_pos hown]
      exact ⟨hprompt, congrArg (fun x : Session => { x with userName := newName }) hsession⟩
    · rw [if_neg hown, if_neg hown]
      exact ⟨hprompt, hsession⟩
  · refine ⟨hprompt, ?_⟩
    have hmid : u.account target = { a with name := newName } := by
      apply State.account_eq
      rw [haccounts, getElem?_set_self hlt]
    have hback : (s.accounts.set target { a with name := newName }).set target a = s.accounts := by
      rw [set_set, ← hget']
      exact set_getElem_self hlt
    change { u.session with
      database := ⟨u.session.database.loginEnabled, s.automaticLogin,
        u.accounts.set target { u.account target with name := a.name }⟩ } = s.session
    rw [hmid, hsession, haccounts, hback]
    rfl

end

/-- The command `usermod` passes all its checks and renames an account, or it only prints. -/
theorem usermod_cases (args : Bytes) (disk : Storage) (s : State) :
    ((usermod args disk s).session = s.session ∧ (usermod args disk s).prompt = s.prompt) ∨
      ∃ current target a newName, usermod args disk s =
          renameAccount current target a.name newName disk s ∧
        s.accounts[target]? = some a ∧ renameArguments args = some (a.name, newName) ∧
        s.currentAccount = some current ∧ findAccount s.accounts a.name = some target ∧
        (isAdministrator s.accounts (some current) = true ∨ target = current) ∧
        a.name ≠ newName ∧ findAccount s.accounts newName = none ∧ s.storageAvailable = true := by
  rw [usermod]
  split
  · exact .inl ⟨rfl, rfl⟩
  · next oldName newName hargs =>
    split
    · next current target hcurrent hfound =>
      obtain ⟨a, hget, rfl⟩ := findAccount_eq_some hfound
      iterate 4
        split
        · exact .inl ⟨rfl, rfl⟩
      next hright hne htaken havailable =>
        exact .inr ⟨current, target, a, newName, rfl, hget, hargs, hcurrent, hfound,
          by simpa [or_iff_not_imp_left] using hright, hne, by simpa using htaken,
          by simpa using havailable⟩
    · exact .inl ⟨rfl, rfl⟩

private theorem usermod_turn (hlength : s.accounts.length ≤ maxUsers) (args : CString)
    (disk : Storage) :
    Turn deriveHash s (.command .usermod args disk) (usermod args.val disk s) := by
  obtain ⟨hsession, hprompt⟩ | ⟨current, target, a, newName, heq, hget, hargs, hcurrent, hfound, -,
    -, hfresh, -⟩ := usermod_cases args.val disk s
  · exact .idle hsession hprompt
  · obtain ⟨hprompt, hsession⟩ := renameAccount_session hlength hget current newName disk
    rw [heq]
    split at hsession
    · next hsaves =>
      have hvalid := (Bool.and_eq_true _ _ ▸ (Option.filter_eq_some_iff.mp hargs).2).2
      have hpersists : Persists deriveHash s (.command .usermod args disk) _ :=
        .renamed hvalid hcurrent hfound hfresh
      refine .saved hpersists hsaves (hsession.trans ?_) (hidden_congr hprompt)
      rw [← State.account_eq hget]
      rfl
    · exact .idle hsession hprompt

/-- A session has the name of its account. -/
theorem refreshed_eq (u : State) :
    (match u.currentAccount with
      | some i => { u with userName := (u.account i).name }
      | none => u) = u := by
  split
  · next i hcurrent =>
    obtain ⟨-, -, a, hget, hname⟩ := State.currentAccount_eq hcurrent
    rw [State.account_eq hget, ← hname]
  · rfl

private theorem saveAccounts_session (disk : Storage) (previous : List Account) (done : String)
    (s : State) : (saveAccounts disk previous done s).session =
      if (persistDatabase disk s).1 then s.session
      else { s.session with database := { s.database with accounts := previous } } := by
  have hsession := persistDatabase_session disk s
  rw [show s.database = s.session.database from rfl, ← hsession]
  unfold saveAccounts
  generalize persistDatabase disk s = r
  obtain ⟨saved, u⟩ := r
  refine (congrArg State.session (refreshed_eq _)).trans ?_
  cases saved with
  | true => rfl
  | false =>
    simp only [Bool.false_eq_true, if_false]
    split
    · rfl
    · rfl

private theorem saveAccounts_turn {t : State} {accounts : List Account}
    (hpersists : Persists deriveHash s event
      { s.session with database := { s.database with accounts := accounts } })
    (ht : t.session = s.session) (hasks : s.asksPassword) (hlength : accounts.length ≤ maxUsers)
    (done : String) : Turn deriveHash s event
      (saveAccounts event.disk t.accounts done { t with accounts := accounts }) := by
  have hfst : (persistDatabase event.disk { t with accounts := accounts }).1 = event.disk.saves :=
    persistDatabase_fst _ hlength
  have hsession := saveAccounts_session event.disk t.accounts done { t with accounts := accounts }
  have hscreen : (saveAccounts event.disk t.accounts done
      { t with accounts := accounts }).screenMode = .hidden :=
    congrArg State.screenMode (refreshed_eq _)
  rw [hfst] at hsession
  by_cases hsaves : event.disk.saves = true
  · rw [if_pos hsaves] at hsession
    refine .saved hpersists hsaves (hsession.trans ?_) fun _ => hscreen
    rw [← ht, show s.database = t.database from congrArg Session.database ht.symm]
    rfl
  · rw [if_neg hsaves] at hsession
    exact .closed (hsession.trans ht) hasks hscreen

private theorem commitPasswordChange_turn {t : State} (ht : t.session = s.session)
    (hprompt : t.prompt = s.prompt) (hpending : t.pendingPassword = s.pendingPassword)
    (hasks : s.asksPassword) (hlength : s.accounts.length ≤ maxUsers) (disk : Storage)
    (salt : Salt) :
    Turn deriveHash s (.key 10 disk salt) (commitPasswordChange deriveHash disk salt t) := by
  have haccounts : t.accounts = s.accounts := congrArg (fun x => x.database.accounts) ht
  have haction : t.passwordAction = s.passwordAction := congrArg Prompt.passwordAction hprompt
  have htarget : t.passwordTarget = s.passwordTarget := congrArg Prompt.passwordTarget hprompt
  simp only [commitPasswordChange]
  split
  · next hadd =>
    split
    · exact .closed ht hasks rfl
    · next hadmin =>
      split
      · exact .closed ht hasks rfl
      · next hfresh =>
        split
        · exact .closed ht hasks rfl
        · next hroom =>
          have hroom : s.accounts.length < maxUsers := by
            rw [haccounts] at hroom
            omega
          have hpersists : Persists deriveHash s (.key 10 disk salt) _ :=
            .added hasks (haction ▸ hadd) (by simpa [administrates_congr ht] using hadmin)
              (by simpa [haccounts, htarget] using hfresh) hroom
          rw [← haccounts, ← htarget, ← hpending] at hpersists
          refine saveAccounts_turn hpersists ht hasks ?_ _
          rw [length_append, haccounts]
          exact hroom
  · next hadd =>
    split
    · exact .closed ht hasks rfl
    · next i hfound =>
      obtain ⟨a, hget, -⟩ := findAccount_eq_some hfound
      have hpersists : Persists deriveHash s (.key 10 disk salt) _ :=
        .changed hasks (haction ▸ hadd) (by rw [← haccounts, ← htarget]; exact hfound)
          (haccounts ▸ hget)
      rw [State.account_eq hget]
      rw [← haccounts, ← hpending] at hpersists
      refine saveAccounts_turn hpersists ht hasks ?_ _
      rw [length_set, haccounts]
      exact hlength

private theorem finishLogin_turn (hscreen : s.screenMode = .loginPassword) :
    Turn deriveHash s event (finishLogin deriveHash s) := by
  simp only [finishLogin]
  split
  · exact .idle rfl rfl
  · next i hfound =>
    obtain ⟨a, hget, -⟩ := findAccount_eq_some hfound
    rw [State.account_eq hget]
    split
    · next hmatches =>
      rw [Bool.and_eq_true] at hmatches
      have hname : (s.account i).name = a.name := by rw [State.account_eq hget]
      refine .entered hscreen hfound hget hmatches.2 ?_ ?_ <;> rw [applyAccountSession, hname] <;>
        repeat (first | rfl | split)
    · exact .idle rfl rfl

private theorem handleReturn_turn (hlength : s.accounts.length ≤ maxUsers) (disk : Storage)
    (salt : Salt) :
    Turn deriveHash s (.key 10 disk salt) (handleReturn deriveHash disk salt s) := by
  rw [handleReturn]
  split
  · exact .idle rfl rfl
  · next hscreen =>
    split
    · exact .idle rfl rfl
    · exact .asked rfl rfl hscreen
  · next hscreen => exact finishLogin_turn hscreen
  · next hscreen =>
    rw [finishPasswordEntry]
    split
    · exact .idle rfl rfl
    · exact .typed rfl (.inl hscreen) (.inr rfl) rfl rfl
  · next hscreen =>
    rw [finishPasswordConfirmation]
    split
    · exact .typed rfl (.inr hscreen) (.inl rfl) rfl rfl
    · apply commitPasswordChange_turn
      · rfl
      · rfl
      · rfl
      · exact .inr hscreen
      · exact hlength

private theorem authHandleKey_turn (hlength : s.accounts.length ≤ maxUsers) (key : UInt8)
    (disk : Storage) (salt : Salt) :
    Turn deriveHash s (.key key disk salt) (authHandleKey deriveHash key disk salt s) := by
  rw [authHandleKey]
  split
  · exact .idle rfl rfl
  split
  · rw [handleBackspace]
    split <;> exact .idle rfl rfl
  split
  · next hkey =>
    subst hkey
    exact handleReturn_turn hlength disk salt
  · rw [handleCharacter]
    split
    · exact .idle rfl rfl
    split <;> split <;> exact .idle rfl rfl

/-- Everything an event can do. -/
theorem step_turn (hlength : s.accounts.length ≤ maxUsers) (event : Event) :
    Turn deriveHash s event (step deriveHash s event) := by
  cases event with
  | key key disk salt => exact authHandleKey_turn hlength key disk salt
  | command command args disk =>
    cases command with
    | users =>
      change Turn deriveHash s _ (users args.val s)
      rw [users]
      split
      · exact .idle rfl rfl
      split <;> exact .idle rfl rfl
    | login => exact login_turn hlength args disk
    | su =>
      change Turn deriveHash s _ (su args.val s)
      rw [su]
      split
      · exact .idle rfl rfl
      · split
        · exact .idle rfl rfl
        · exact .asked rfl rfl (.inl rfl)
    | useradd => exact useradd_turn args.val disk
    | userdel => exact userdel_turn hlength args disk
    | passwd => exact passwd_turn args.val disk
    | usermod => exact usermod_turn hlength args disk

end NasuaOS.Authentication
