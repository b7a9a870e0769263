import NasuaOS.Authentication.Accounts

/-!
# Account commands and password screens

`src/kernel_64bit/src/system/authentication/authentication.cpp:40–87,145–160,304–355,473–805,
820–885,1076–1385`. Every command and every key press is a step on the globals of the file. What the
disk answers while a step runs, and the salt it draws, come with the step; the password hash is a
parameter. Drawing, the prompt and the current directory are left out.
-/

namespace NasuaOS.Authentication

open Base Libc

/-- `screen_mode_t`. -/
inductive ScreenMode
  | hidden
  | loginUsername
  | loginPassword
  | newPassword
  | confirmPassword
  deriving DecidableEq, Repr

/-- `password_action_t`. -/
inductive PasswordAction
  | none
  | addUser
  | changePassword
  deriving DecidableEq, Repr

/-- The globals of the file, and the messages printed so far. -/
structure State where
  accounts : List Account
  databaseValid : Bool
  storageAvailable : Bool
  loginEnabled : Bool
  automaticLogin : Username
  input : Username
  passwordInput : Password
  pendingPassword : Password
  passwordTarget : Username
  statusMessage : String
  screenMode : ScreenMode
  passwordAction : PasswordAction
  switchingUser : Bool
  currentUserValid : Bool
  activeAccountIndex : Option Nat
  userName : Username
  printed : List String

/-- What the disk answers during one step: whether it is a RAM disk, whether ClawFS is formatted,
whether `/etc` is there or can be made, and whether the file is written. -/
structure Storage where
  storageIsRam : Bool
  clawfsExists : Bool
  etcDirectory : Bool
  fileWritten : Bool
  deriving DecidableEq, Repr

namespace State

/-- Print one message. -/
def print (s : State) (text : String) : State := { s with printed := s.printed ++ [text] }

/-- `set_status`; every message is shorter than the buffer. -/
def setStatus (s : State) (text : String) : State := { s with statusMessage := text }

/-- The part of the state that is saved. -/
def database (s : State) : Database := ⟨s.loginEnabled, s.automaticLogin, s.accounts⟩

/-- `accounts[index]`, zeroed behind the last account. -/
def account (s : State) (index : Nat) : Account :=
  s.accounts.getD index ⟨noName, Vector.replicate _ 0, Vector.replicate _ 0, false⟩

/-- `current_account`; `none` is the index −1. -/
def currentAccount (s : State) : Option Nat :=
  match s.activeAccountIndex with
  | none => none
  | some i =>
    if s.currentUserValid = true ∧ i < s.accounts.length ∧ s.userName = (s.account i).name then
      some i
    else none

/-- The session's account is an administrator's: the test of `require_admin`. -/
def administrates (s : State) : Bool := isAdministrator s.accounts s.currentAccount

end State

/-- `persist_database`. -/
def persistDatabase (disk : Storage) (s : State) : Bool × State :=
  if disk.storageIsRam then
    (false, { s with storageAvailable := false }.setStatus
      "Only a RAM disk is available; settings will not survive reboot.")
  else if !disk.clawfsExists then
    (false, { s with storageAvailable := false }.setStatus
      "ClawFS is not formatted. Run 'format' before saving settings.")
  else
    let s := { s with storageAvailable := true }
    if !disk.etcDirectory then (false, s.setStatus "ClawFS has no writable /etc directory.")
    else if (serializeDatabase s.database).isNone then
      (false, s.setStatus "Account database is too large.")
    else if !disk.fileWritten then
      (false, s.setStatus "ClawFS write failed. Check disk health and free space.")
    else (true, s)

/-- `print_save_error`. -/
def printSaveError (fallback : String) (s : State) : State :=
  (s.print (if s.statusMessage ≠ "" then s.statusMessage else fallback)).print "\n"

/-- `print_usage`. -/
def printUsage (usage : String) (s : State) : State :=
  ((s.print "Usage: ").print usage).print "\n"

/-- The message for a disk that cannot keep accounts. -/
def storageMessage (disk : Storage) : String :=
  if disk.storageIsRam then "A persistent disk is required to change accounts.\n"
  else "Account changes require a formatted ClawFS disk.\n"

/-- `parse_arguments`: two words with spaces around them, each within its buffer. -/
def parseArguments (args : Bytes) (firstCapacity secondCapacity : Nat) :
    Option (Text firstCapacity × Text secondCapacity) := do
  let start := args.dropWhile (· == 32)
  let first ← Text.ofList? (start.takeWhile (· != 32))
  let middle := (start.dropWhile (· != 32)).dropWhile (· == 32)
  let second ← Text.ofList? (middle.takeWhile (· != 32))
  let rest := (middle.dropWhile (· != 32)).dropWhile (· == 32)
  if rest = [] then some (first, second) else none

/-- The arguments of `passwd`: at most one name. -/
def optionalArgument (args : Bytes) : Option Username :=
  match parseArguments args usernameCapacity 2 with
  | none => none
  | some (name, extra) => if extra.val = [] then some name else none

/-- The argument of `su`, `useradd` and `userdel`: one valid name. -/
def nameArgument (args : Bytes) : Option Username :=
  (optionalArgument args).filter validUsername

/-- The arguments of `usermod`: two valid names. -/
def renameArguments (args : Bytes) : Option (Username × Username) :=
  (parseArguments args usernameCapacity usernameCapacity).filter fun names =>
    validUsername names.1 && validUsername names.2

/-- `apply_account_session`. -/
def applyAccountSession (index : Nat) (resetShell : Bool) (s : State) : State :=
  let entered : State :=
    { s with
      activeAccountIndex := some index
      userName := (s.account index).name
      currentUserValid := true
      screenMode := .hidden
      passwordAction := .none
      switchingUser := false
      input := noName
      passwordInput := noPassword
      pendingPassword := noPassword
      statusMessage := "" }
  if resetShell then { entered with printed := [] }
  else if s.currentUserValid then entered.print "User switched successfully.\n"
  else entered

/-- `begin_password_change`. -/
def beginPasswordChange (action : PasswordAction) (target : Username) (disk : Storage)
    (s : State) : State :=
  let s := { s with storageAvailable := disk.clawfsExists }
  if !disk.clawfsExists || disk.storageIsRam then s.print (storageMessage disk)
  else
    State.print
      { s with
        passwordTarget := target
        passwordAction := action
        screenMode := .newPassword
        passwordInput := noPassword
        pendingPassword := noPassword
        statusMessage := "" }
      "Enter the new password in the secure prompt.\n"

section
variable (deriveHash : Password → Salt → Hash)

/-- `password_matches`. -/
def passwordMatches (a : Account) (password : Password) : Bool :=
  deriveHash password a.salt == a.passwordHash

/-- Leave the password screens. -/
def closeScreens (s : State) : State :=
  { s with
    passwordAction := .none
    screenMode := .hidden
    passwordInput := noPassword
    pendingPassword := noPassword }

/-- The end of `commit_password_change`: save, or put the accounts back. -/
def saveAccounts (disk : Storage) (previous : List Account) (done : String) (s : State) : State :=
  let (saved, s) := persistDatabase disk s
  let s :=
    if saved then s.setStatus done
    else
      let s := { s with accounts := previous }
      if s.statusMessage = "" then s.setStatus "Could not save account changes." else s
  let s := closeScreens s
  let s := (s.print s.statusMessage).print "\n"
  match s.currentAccount with
  | some i => { s with userName := (s.account i).name }
  | none => s

/-- `commit_password_change`. -/
def commitPasswordChange (disk : Storage) (salt : Salt) (s : State) : State :=
  let target := findAccount s.accounts s.passwordTarget
  if s.passwordAction = .addUser then
    if !s.administrates then (closeScreens (s.print "Administrator privileges required.\n"))
    else if target.isSome then
      { s.setStatus "That account already exists." with
        screenMode := .hidden, passwordAction := .none }
    else if maxUsers ≤ s.accounts.length then
      { s.setStatus "Maximum number of accounts reached." with
        screenMode := .hidden, passwordAction := .none }
    else
      let added : Account :=
        ⟨s.passwordTarget, salt, deriveHash s.pendingPassword salt, false⟩
      saveAccounts disk s.accounts "Account created successfully."
        { s with accounts := s.accounts ++ [added] }
  else
    match target with
    | none =>
      { s.setStatus "The account no longer exists." with
        passwordAction := .none, screenMode := .hidden }
    | some i =>
      let changed : Account :=
        { s.account i with salt := salt, passwordHash := deriveHash s.pendingPassword salt }
      saveAccounts disk s.accounts "Password changed successfully."
        { s with accounts := s.accounts.set i changed }

/-- `finish_password_entry`. -/
def finishPasswordEntry (s : State) : State :=
  if !validPassword s.passwordInput then
    { s.setStatus "Password must contain 1 to 63 characters." with passwordInput := noPassword }
  else
    { s with
      pendingPassword := s.passwordInput
      passwordInput := noPassword
      screenMode := .confirmPassword
      statusMessage := "" }

/-- `finish_password_confirmation`. -/
def finishPasswordConfirmation (disk : Storage) (salt : Salt) (s : State) :
    State :=
  if s.pendingPassword ≠ s.passwordInput then
    { s with
      passwordInput := noPassword
      pendingPassword := noPassword
      screenMode := .newPassword
      statusMessage := "Passwords did not match. Try again." }
  else commitPasswordChange deriveHash disk salt { s with passwordInput := noPassword }

/-- `finish_login`, with `fail_login` in its first branch. -/
def finishLogin (s : State) : State :=
  let failed := { s with passwordInput := noPassword }.setStatus "Invalid username or password."
  match findAccount s.accounts s.input with
  | none => failed
  | some i =>
    if s.databaseValid && passwordMatches deriveHash (s.account i) s.passwordInput then
      applyAccountSession i (!s.switchingUser) s
    else failed

/-- The return key. -/
def handleReturn (disk : Storage) (salt : Salt) (s : State) : State :=
  match s.screenMode with
  | .hidden => s
  | .loginUsername =>
    if !validUsername s.input || (findAccount s.accounts s.input).isNone then
      s.setStatus "Unknown account."
    else { s.setStatus "" with screenMode := .loginPassword }
  | .loginPassword => finishLogin deriveHash s
  | .newPassword => finishPasswordEntry s
  | .confirmPassword => finishPasswordConfirmation deriveHash disk salt s

/-- The backspace key. -/
def handleBackspace (s : State) : State :=
  match s.screenMode with
  | .hidden => s.setStatus ""
  | .loginUsername => { s.setStatus "" with input := s.input.dropLast }
  | _ => { s.setStatus "" with passwordInput := s.passwordInput.dropLast }

/-- A character key. -/
def handleCharacter (key : UInt8) (s : State) : State :=
  if key < 32 ∨ 126 < key then s
  else if s.screenMode = .loginUsername then
    match s.input.push? key with
    | some input => { s.setStatus "" with input := input }
    | none => s
  else
    match s.passwordInput.push? key with
    | some passwordInput => { s.setStatus "" with passwordInput := passwordInput }
    | none => s

/-- `auth_handle_key`; a click on the button of the screen is the return key. -/
def authHandleKey (key : UInt8) (disk : Storage) (salt : Salt) (s : State) :
    State :=
  if !s.databaseValid then s
  else if key = 8 then handleBackspace s
  else if key = 10 then handleReturn deriveHash disk salt s
  else handleCharacter key s

end

/-- The commands `auth_execute_command` knows. -/
inductive Command
  | users
  | login
  | su
  | useradd
  | userdel
  | passwd
  | usermod
  deriving DecidableEq, Repr

/-- A name as text. -/
def nameText (name : Username) : String :=
  String.ofList (name.val.map fun c => Char.ofNat c.toNat)

/-- The line `users` prints for one account. -/
def userLine (accounts : List Account) (index : Nat) (a : Account) : String :=
  " - " ++ nameText a.name ++
    (if isAdministrator accounts (some index) then " (administrator)" else "") ++ "\n"

/-- The command `users`. -/
def users (args : Bytes) (s : State) : State :=
  if args.dropWhile (· == 32) ≠ [] then printUsage "users" s
  else if s.currentAccount.isNone then s.print "No authenticated user.\n"
  else
    let heading := s.print "User accounts:\n"
    { heading with printed := heading.printed ++ s.accounts.mapIdx (userLine s.accounts) }

/-- The switches of `login`: save a new setting, or put the old one back. -/
def saveLogin (disk : Storage) (previous : Bool) (previousAutomatic : Username) (done : String)
    (s : State) : State :=
  let (saved, s) := persistDatabase disk (s.setStatus "")
  if saved then s.print done
  else
    printSaveError "Could not save login settings."
      { s with loginEnabled := previous, automaticLogin := previousAutomatic }

/-- The command `login`. -/
def login (args : Bytes) (disk : Storage) (s : State) : State :=
  if args = ascii ['-', '-', 'o', 'n'] then
    if !s.administrates then s.print "Administrator privileges required.\n"
    else
      saveLogin disk s.loginEnabled s.automaticLogin "Login screen enabled for the next boot.\n"
        { s with loginEnabled := true }
  else if args = ascii ['-', '-', 'o', 'f', 'f'] then
    if !s.administrates then s.print "Administrator privileges required.\n"
    else
      saveLogin disk s.loginEnabled s.automaticLogin
        "Login screen disabled; automatic login is enabled.\n"
        { s with loginEnabled := false, automaticLogin := s.userName }
  else if args = [] then
    State.print
      { s with
        switchingUser := true
        input := s.userName
        passwordInput := noPassword
        screenMode := .loginPassword
        statusMessage := "" }
      "Enter your password in the secure prompt.\n"
  else printUsage "login --on | --off" s

/-- The command `su`. -/
def su (args : Bytes) (s : State) : State :=
  match nameArgument args with
  | none => printUsage "su <username>" s
  | some name =>
    if (findAccount s.accounts name).isNone then s.print "Unknown account.\n"
    else
      State.print
        { s with
          input := name
          passwordInput := noPassword
          switchingUser := true
          screenMode := .loginPassword
          statusMessage := "" }
        "Enter the account password in the secure prompt.\n"

/-- The command `useradd`. -/
def useradd (args : Bytes) (disk : Storage) (s : State) : State :=
  match nameArgument args with
  | none => printUsage "useradd <username>" s
  | some name =>
    if !s.administrates then s.print "Administrator privileges required.\n"
    else if (findAccount s.accounts name).isSome then s.print "That account already exists.\n"
    else if maxUsers ≤ s.accounts.length then s.print "Maximum number of accounts reached.\n"
    else beginPasswordChange .addUser name disk s

/-- The state without an account, before `userdel` saves it. -/
def withoutAccount (target : Nat) (name : Username) (s : State) : State :=
  { s with
    accounts := s.accounts.eraseIdx target
    automaticLogin := if s.automaticLogin = name then root else s.automaticLogin
    activeAccountIndex := s.activeAccountIndex.map fun i => if target < i then i - 1 else i }

/-- The part of `userdel` behind its checks: drop the account, or put it back. -/
def deleteAccount (target : Nat) (name : Username) (disk : Storage) (s : State) : State :=
  let (saved, after) := persistDatabase disk (withoutAccount target name s)
  if saved then after.print "Account deleted successfully.\n"
  else
    printSaveError "Could not save account changes."
      { after with
        accounts := after.accounts.insertIdx target (s.account target)
        automaticLogin := s.automaticLogin
        activeAccountIndex := s.activeAccountIndex }

/-- The command `userdel`. -/
def userdel (args : Bytes) (disk : Storage) (s : State) : State :=
  match nameArgument args with
  | none => printUsage "userdel <username>" s
  | some name =>
    if !s.administrates then s.print "Administrator privileges required.\n"
    else
      match findAccount s.accounts name with
      | none => s.print "Unknown account.\n"
      | some target =>
        if (s.account target).name = root then s.print "The root account cannot be deleted.\n"
        else if s.currentAccount = some target then
          s.print "You cannot delete the currently logged-in account.\n"
        else if disk.storageIsRam || !disk.clawfsExists then s.print (storageMessage disk)
        else deleteAccount target name disk s

/-- The command `passwd`. -/
def passwd (args : Bytes) (disk : Storage) (s : State) : State :=
  match optionalArgument args with
  | none => printUsage "passwd [username]" s
  | some given =>
    match s.currentAccount with
    | none => s.print "No authenticated user.\n"
    | some current =>
      let name := if given.val = [] then s.userName else given
      match findAccount s.accounts name with
      | none => s.print "Unknown account.\n"
      | some target =>
        if !isAdministrator s.accounts (some current) && target != current then
          s.print "You may only change your own password.\n"
        else beginPasswordChange .changePassword name disk s

/-- The state with a new name for an account, before `usermod` saves it. -/
def withName (target : Nat) (oldName newName : Username) (s : State) : State :=
  { s with
    accounts := s.accounts.set target { s.account target with name := newName }
    automaticLogin := if s.automaticLogin = oldName then newName else s.automaticLogin }

/-- The part of `usermod` behind its checks: rename the account, or put the old name back. -/
def renameAccount (current target : Nat) (oldName newName : Username) (disk : Storage)
    (s : State) : State :=
  let (saved, after) := persistDatabase disk (withName target oldName newName s)
  if saved then
    State.print (if target = current then { after with userName := newName } else after)
      "Account renamed successfully.\n"
  else
    State.print
      { after with
        accounts := after.accounts.set target { after.account target with name := oldName }
        automaticLogin := s.automaticLogin }
      "Could not save account changes.\n"

/-- The command `usermod`. -/
def usermod (args : Bytes) (disk : Storage) (s : State) : State :=
  match renameArguments args with
  | none => printUsage "usermod <current-name> <new-name>" s
  | some (oldName, newName) =>
    match s.currentAccount, findAccount s.accounts oldName with
    | some current, some target =>
      if !isAdministrator s.accounts (some current) && target != current then
        s.print "You may only rename your own account.\n"
      else if oldName = newName then s.print "Account name is unchanged.\n"
      else if (findAccount s.accounts newName).isSome then
        s.print "That account name is already in use.\n"
      else if !s.storageAvailable then s.print (storageMessage disk)
      else renameAccount current target oldName newName disk s
    | _, _ => s.print "Unknown account.\n"

/-- `auth_execute_command`; other commands are not the account system's. -/
def authExecuteCommand (command : Command) (args : Bytes) (disk : Storage) (s : State) :
    State :=
  match command with
  | .users => users args s
  | .login => login args disk s
  | .su => su args s
  | .useradd => useradd args disk s
  | .userdel => userdel args disk s
  | .passwd => passwd args disk s
  | .usermod => usermod args disk s

section
variable (deriveHash : Password → Salt → Hash)

/-- `seed_defaults`, with the salts that are drawn. -/
def seedDefaults (rootSalt userSalt : Salt) : Database where
  loginEnabled := false
  automaticLogin := user
  accounts :=
    [⟨root, rootSalt, deriveHash ⟨ascii ['a', 'd', 'm', 'i', 'n'], by decide⟩ rootSalt, true⟩,
      ⟨user, userSalt, deriveHash ⟨ascii ['u', 's', 'e', 'r'], by decide⟩ userSalt, false⟩]

/-- What `auth_init` finds: the disk's answers, the size and the bytes of the account file, whether
the path has a sector at all, and the salts it may draw. -/
structure Boot where
  disk : Storage
  fileSize : Option Nat
  file : Option Bytes
  databaseSector : Bool
  rootSalt : Salt
  userSalt : Salt

/-- The database in the file, when size and contents agree and it is accepted. -/
def readDatabase (size : Nat) (file : Option Bytes) : Option (Database × Bool) :=
  match file with
  | none => none
  | some data =>
    if size < databaseCapacity ∧ data.length = size then parseDatabase data else none

/-- The accounts and settings of a database in the globals. -/
def loadDatabase (db : Database) (s : State) : State :=
  { s with
    accounts := db.accounts
    loginEnabled := db.loginEnabled
    automaticLogin := db.automaticLogin }

/-- Stop at the login screen with a message. -/
def stopAtLogin (text : String) (s : State) : State :=
  { s.setStatus text with screenMode := .loginUsername }

/-- The end of `auth_init`: the login screen, or the account that logs in by itself. -/
def startSession (s : State) : Bool × State :=
  if s.loginEnabled then (true, { s with input := user, screenMode := .loginUsername })
  else
    match findAccount s.accounts s.automaticLogin with
    | none =>
      (false,
        stopAtLogin "Automatic login account does not exist." { s with databaseValid := false })
    | some i => (true, applyAccountSession i true s)

/-- The message for settings that will be lost. -/
def volatileMessage (disk : Storage) : String :=
  if disk.storageIsRam then "Only a RAM disk is available; settings will not survive reboot."
  else "ClawFS is not formatted; settings will not survive reboot."

/-- `auth_init`. What a refused file leaves in the globals is not followed: no key is handled then
and no account is logged in. -/
def authInit (boot : Boot) (s : State) : Bool × State :=
  let s : State :=
    { s with
      storageAvailable := boot.disk.clawfsExists && !boot.disk.storageIsRam
      databaseValid := true
      currentUserValid := false
      activeAccountIndex := none
      switchingUser := false
      passwordAction := .none }
  let refused :=
    (false,
      stopAtLogin "Account database invalid; login is blocked." { s with databaseValid := false })
  let seeded := loadDatabase (seedDefaults deriveHash boot.rootSalt boot.userSalt) s
  if !boot.disk.clawfsExists then startSession (seeded.setStatus (volatileMessage boot.disk))
  else
    match boot.fileSize with
    | some size =>
      match readDatabase size boot.file with
      | none => refused
      | some (db, migration) =>
        let s := loadDatabase db s
        if migration then
          let (saved, s) := persistDatabase boot.disk s
          if saved then startSession s
          else
            (false, stopAtLogin "Could not save updated login settings."
              { s with loginEnabled := true })
        else startSession s
    | none =>
      if boot.databaseSector then refused
      else if s.storageAvailable then
        let (saved, s) := persistDatabase boot.disk seeded
        if saved then startSession s
        else (false, stopAtLogin "Could not initialize the account database." s)
      else startSession (seeded.setStatus (volatileMessage boot.disk))

/-- The databases a system starts from: the defaults, or a file that `parse_database` accepts. -/
inductive ValidDatabase : Database → Prop
  | defaults (rootSalt userSalt : Salt) :
    ValidDatabase (seedDefaults deriveHash rootSalt userSalt)
  | file {data : Bytes} {db : Database} {migration : Bool}
    (h : parseDatabase data = some (db, migration)) : ValidDatabase db

/-- One thing a user does, with what the disk answers and the salt that is drawn meanwhile. -/
inductive Event
  | command (command : Command) (args : CString) (disk : Storage)
  | key (key : UInt8) (disk : Storage) (salt : Salt)

/-- The state after one event. -/
def step (s : State) : Event → State
  | .command command args disk => authExecuteCommand command args.val disk s
  | .key key disk salt => authHandleKey deriveHash key disk salt s

/-- The state after a list of events. -/
def run (s : State) (events : List Event) : State := events.foldl (step deriveHash) s

end

end NasuaOS.Authentication
