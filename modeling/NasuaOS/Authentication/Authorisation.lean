import NasuaOS.Authentication.Reachable

/-!
# Who may change what, and what a failed save leaves

Rights are checked when a command starts, and a password is set several keys later. Between the two
the prompt captures the input, so neither the accounts nor the session can change. A change that is
not saved is taken back completely.
-/

namespace NasuaOS.Authentication

open Base Libc

variable {deriveHash : Password → Salt → Hash}
variable {s s' : State}

/-- What a step may do to the accounts and to who is logged in, and who may do it. -/
inductive Permitted (deriveHash : Password → Salt → Hash)
    (s s' : State) : Prop
  /-- Nothing. -/
  | same (haccounts : s'.accounts = s.accounts)
    (hactive : s'.activeAccountIndex = s.activeAccountIndex)
    (hvalid : s'.currentUserValid = s.currentUserValid)
  /-- An administrator adds an account. -/
  | added (a : Account) (hadmin : s.administrates = true)
    (haccounts : s'.accounts = s.accounts ++ [a])
    (hactive : s'.activeAccountIndex = s.activeAccountIndex)
    (hvalid : s'.currentUserValid = s.currentUserValid)
  /-- An administrator removes another account; the session stays with its own. -/
  | removed (target : Nat) (hadmin : s.administrates = true)
    (hother : s.activeAccountIndex ≠ some target)
    (haccounts : s'.accounts = s.accounts.eraseIdx target)
    (hactive : s'.activeAccountIndex =
      s.activeAccountIndex.map fun i => if target < i then i - 1 else i)
    (hvalid : s'.currentUserValid = s.currentUserValid)
  /-- An administrator, or the account itself, changes a salt and a hash. -/
  | rehashed (i : Nat) (a b : Account) (hget : s.accounts[i]? = some a)
    (hright : s.administrates = true ∨ s.currentAccount = some i) (hname : b.name = a.name)
    (hflag : b.administrator = a.administrator) (haccounts : s'.accounts = s.accounts.set i b)
    (hactive : s'.activeAccountIndex = s.activeAccountIndex)
    (hvalid : s'.currentUserValid = s.currentUserValid)
  /-- An account gets another name, and keeps its salt, hash and flag. -/
  | renamed (i : Nat) (a : Account) (newName : Username) (hget : s.accounts[i]? = some a)
    (haccounts : s'.accounts = s.accounts.set i { a with name := newName })
    (hactive : s'.activeAccountIndex = s.activeAccountIndex)
    (hvalid : s'.currentUserValid = s.currentUserValid)
  /-- Somebody logs in with the password of the account. -/
  | entered (i : Nat) (a : Account) (hget : s.accounts[i]? = some a)
    (hmatches : passwordMatches deriveHash a s.passwordInput = true)
    (haccounts : s'.accounts = s.accounts) (hactive : s'.activeAccountIndex = some i)
    (hvalid : s'.currentUserValid = true)

private theorem Permitted.of_session (h : s'.session = s.session) : Permitted deriveHash s s' :=
  .same (congrArg (fun x => x.database.accounts) h) (congrArg Session.activeAccountIndex h)
    (congrArg Session.currentUserValid h)

variable {event : Event}

private theorem Good.permits (h : Good s) {after : Session}
    (hpersists : Persists deriveHash s event after) (hafter : s'.session = after) :
    Permitted deriveHash s s' := by
  have haccounts : s'.accounts = after.database.accounts :=
    congrArg (fun x => x.database.accounts) hafter
  have hactive : s'.activeAccountIndex = after.activeAccountIndex :=
    congrArg Session.activeAccountIndex hafter
  have hvalid : s'.currentUserValid = after.currentUserValid :=
    congrArg Session.currentUserValid hafter
  cases hpersists with
  | loginOn hargs hadmin | loginOff hargs hadmin => exact .same haccounts hactive hvalid
  | removed hadmin hfound hroot hcurrent =>
    next target =>
    refine .removed target hadmin ?_ haccounts hactive hvalid
    intro hsame
    obtain ⟨i, -, hi, -⟩ := State.administrates_eq hadmin
    have hactive := (State.currentAccount_eq hi).2.1
    exact hcurrent (hi.trans (hactive.symm.trans hsame))
  | renamed hname hcurrent hfound hfresh =>
    next newName current target =>
    obtain ⟨a, hget, rfl⟩ := findAccount_eq_some hfound
    refine .renamed target a newName hget (haccounts.trans ?_) hactive hvalid
    change (withName target a.name newName s).accounts = _
    rw [withName, State.account_eq hget]
  | added hasks haction hadmin hfresh hroom => exact .added _ hadmin haccounts hactive hvalid
  | changed hasks haction hfound hget =>
    next salt target a =>
    -- the prompt was opened by someone who may set this password
    have hright : s.administrates = true ∨ s.currentAccount = some target := by
      have hmay := h.prompt hasks
      generalize s.passwordAction = action at haction hmay
      cases hmay with
      | add => exact absurd rfl haction
      | change hcurrent hfound' hright =>
        rcases hright with hadmin | hown
        · exact .inl hadmin
        · rw [hfound', Option.some.injEq] at hfound
          exact .inr (hfound ▸ hown ▸ hcurrent)
    exact .rehashed target a
      { a with salt := salt, passwordHash := deriveHash s.pendingPassword salt } hget hright rfl rfl
      haccounts hactive hvalid

private theorem Good.permitted (h : Good s) (hturn : Turn deriveHash s event s') :
    Permitted deriveHash s s' := by
  cases hturn with
  | idle hsession | asked hsession | opened hsession | typed hsession | closed hsession =>
    exact .of_session hsession
  | entered hscreen hfound hget hmatches hsession =>
    exact .entered _ _ hget hmatches (congrArg (fun x => x.database.accounts) hsession)
      (congrArg Session.activeAccountIndex hsession) (congrArg Session.currentUserValid hsession)
  | saved hpersists hsaves hsession => exact h.permits hpersists hsession

/-- `auth_init` logs in nobody, or the account that is to log in by itself. In every state of every
run the session has the name of its account, and every command and key does what is permitted. -/
theorem accounts_authorised :
    (∀ boot globals, (authInit deriveHash boot globals).2.currentUserValid = true →
      (authInit deriveHash boot globals).2.loginEnabled = false ∧
      ∃ i, findAccount (authInit deriveHash boot globals).2.accounts
          (authInit deriveHash boot globals).2.automaticLogin = some i ∧
        (authInit deriveHash boot globals).2.activeAccountIndex = some i) ∧
    ∀ s, Reachable deriveHash s →
      (s.currentUserValid = true → ∃ i a, s.activeAccountIndex = some i ∧ s.accounts[i]? = some a ∧
        s.userName = a.name) ∧
      ∀ event, Entered s event → Permitted deriveHash s (step deriveHash s event) := by
  refine ⟨?_, ?_⟩
  · intro boot globals hvalid
    rcases @authInit_started deriveHash boot globals with hstarted | hblocked
    · rcases hstarted.session with hnobody | ⟨-, henabled, i, a, hfound, -, hactive, -⟩
      · exact absurd (hnobody.symm.trans hvalid) (by decide)
      · exact ⟨henabled, i, hfound, hactive⟩
    · exact absurd (hblocked.currentUserValid.symm.trans hvalid) (by decide)
  · intro s hs
    rcases hs.good with hgood | hblocked
    · refine ⟨hgood.session, fun event _ => ?_⟩
      exact hgood.permitted (step_turn hgood.database.wellFormed.length_le event)
    · refine ⟨fun hvalid => ?_, fun event hentered => ?_⟩
      · exact absurd (hblocked.currentUserValid.symm.trans hvalid) (by decide)
      · rw [hblocked.step hentered]
        exact .same rfl rfl rfl

private theorem firstStart_hidden : firstStart.screenMode = .hidden := by decide +kernel

private theorem reachable_su (keys : Bytes) : Reachable plainHash (run plainHash firstStart
    (.command .su (cstring (ascii ['r', 'o', 'o', 't'])) formattedDisk ::
      keys.map fun key => .key key formattedDisk (Vector.replicate _ 0))) := by
  have hkeys : ∀ (keys : Bytes) (s : State), Reachable plainHash s →
      Reachable plainHash (run plainHash s (keys.map fun key =>
        .key key formattedDisk (Vector.replicate _ 0))) := by
    intro keys
    induction keys with
    | nil => exact fun s h => h
    | cons key keys ih => exact fun s h => ih _ (h.step trivial)
  have hstart : Reachable plainHash firstStart := .start _ _
  have hentered : Entered firstStart
      (.command .su (cstring (ascii ['r', 'o', 'o', 't'])) formattedDisk) := firstStart_hidden
  rw [run, List.foldl_cons]
  exact hkeys keys _ (hstart.step hentered)

/-- The password of `root` is typed after the first start, but not entered yet. -/
def passwordTyped : State := run plainHash firstStart (becomeRoot.take 6)

/-- Entering it logs `root` in. -/
theorem accounts_authorised_login :
    passwordTyped.currentAccount ≠ some 0 ∧
      (step plainHash passwordTyped
        (.key 10 formattedDisk (Vector.replicate _ 0))).currentAccount = some 0 ∧
      Permitted plainHash passwordTyped
        (step plainHash passwordTyped (.key 10 formattedDisk (Vector.replicate _ 0))) := by
  have hlogin : passwordTyped.currentAccount ≠ some 0 ∧ (step plainHash passwordTyped
      (.key 10 formattedDisk (Vector.replicate _ 0))).currentAccount = some 0 := by
    decide +kernel
  have hreach := reachable_su (ascii ['a', 'd', 'm', 'i', 'n'])
  exact ⟨hlogin.1, hlogin.2, (accounts_authorised.2 passwordTyped hreach).2 _ trivial⟩

/-- Nobody is logging in. -/
def Settled (s : State) : Prop := s.screenMode = .hidden ∨ s.asksPassword

private theorem Turn.unsaved (h : Turn deriveHash s event s') (hs : Settled s)
    (hevent : ¬ AsksLogin s event)
    (hfails : event.disk.saves = true → ∀ after, ¬ Persists deriveHash s event after) :
    s'.session = s.session ∧ Settled s' := by
  have hscreen : ∀ mode, s.screenMode = mode → mode = .hidden ∨ mode = .newPassword ∨
      mode = .confirmPassword := by
    rintro mode rfl
    exact hs
  cases h with
  | idle hsession hprompt =>
    refine ⟨hsession, ?_⟩
    rw [Settled, State.asksPassword,
      show s'.screenMode = s.screenMode from congrArg Prompt.screenMode hprompt]
    exact hs
  | asked hsession hscreen hasked => exact absurd hasked hevent
  | opened hsession hprompt => exact ⟨hsession, .inr (.inl (congrArg Prompt.screenMode hprompt))⟩
  | typed hsession hasks hafter => exact ⟨hsession, .inr hafter⟩
  | closed hsession hasks hscreen => exact ⟨hsession, .inl hscreen⟩
  | entered hlogin => simpa using hscreen _ hlogin
  | saved hpersists hsaves => exact absurd hpersists (hfails hsaves _)

private theorem keys_unsaved {keys : List (UInt8 × Storage × Salt)}
    (hkeys : ∀ k ∈ keys, k.2.1.saves = false) (hs : Settled s) (hgood : Good s) :
    (run deriveHash s (keys.map fun k => .key k.1 k.2.1 k.2.2)).session = s.session := by
  induction keys generalizing s with
  | nil => rfl
  | cons k keys ih =>
    have hturn : Turn deriveHash s (.key k.1 k.2.1 k.2.2) _ :=
      step_turn hgood.database.wellFormed.length_le _
    have hnot : ¬ AsksLogin s (.key k.1 k.2.1 k.2.2) := by
      rintro (h : s.screenMode = .loginUsername)
      rcases hs with hs | hs | hs
      · exact absurd (h.symm.trans hs) (by decide)
      · exact absurd (h.symm.trans hs) (by decide)
      · exact absurd (h.symm.trans hs) (by decide)
    have hfails : k.2.1.saves = true → ∀ after,
        ¬ Persists deriveHash s (.key k.1 k.2.1 k.2.2) after := by
      intro hsaves
      exact absurd ((hkeys k List.mem_cons_self).symm.trans hsaves) (by decide)
    obtain ⟨hsession, hsettled⟩ := hturn.unsaved hs hnot hfails
    have hentered : Entered s (.key k.1 k.2.1 k.2.2) := trivial
    refine (ih (fun k hk => hkeys k (List.mem_cons_of_mem _ hk)) hsettled ?_).trans hsession
    exact hgood.turn hentered hturn

/-- A command that changes accounts or settings: what it saves itself, if it does not ask for a
password first, is not saved. -/
def Fails (command : Command) (args : CString) (disk : Storage) : Prop :=
  match command with
  | .useradd | .passwd => True
  | .userdel | .usermod => disk.saves = false
  | .login => args.val ≠ [] ∧ disk.saves = false
  | .users | .su => False

/-- A command that changes accounts or settings, with the keys that are typed at its prompt, leaves
accounts, settings and session as they were when the database cannot be saved. -/
theorem commands_atomic (hs : Reachable deriveHash s) (hhidden : s.screenMode = .hidden)
    {command : Command} {args : CString} {disk : Storage} (hfails : Fails command args disk)
    {keys : List (UInt8 × Storage × Salt)} (hkeys : ∀ k ∈ keys, k.2.1.saves = false) :
    (run deriveHash s
      (.command command args disk :: keys.map fun k => .key k.1 k.2.1 k.2.2)).session =
        s.session := by
  have hgood : Good s := hs.good.resolve_right fun h =>
    absurd (h.screenMode.symm.trans hhidden) (by decide)
  have hturn : Turn deriveHash s (.command command args disk) _ :=
    step_turn hgood.database.wellFormed.length_le _
  have hnot : ¬ AsksLogin s (.command command args disk) := by
    rintro (rfl | ⟨rfl, hargs⟩)
    · exact hfails
    · exact hfails.1 hargs
  have hunsaved : disk.saves = true → ∀ after,
      ¬ Persists deriveHash s (.command command args disk) after := by
    intro hsaves after hpersists
    cases hpersists with
    | loginOn | loginOff => exact absurd (hsaves.symm.trans hfails.2) (by decide)
    | removed | renamed => exact absurd (hsaves.symm.trans hfails) (by decide)
  have hentered : Entered s (.command command args disk) := hhidden
  obtain ⟨hsession, hsettled⟩ := hturn.unsaved (.inl hhidden) hnot hunsaved
  exact (keys_unsaved hkeys hsettled (hgood.turn hentered hturn)).trans hsession

/-- The state in which `root` is logged in is reachable. -/
theorem reachable_root : Reachable plainHash (run plainHash firstStart becomeRoot) :=
  reachable_su (ascii ['a', 'd', 'm', 'i', 'n', '\n'])

/-- In it no screen is open, `root` administrates, and the accounts are still the first ones. -/
theorem root_state : (run plainHash firstStart becomeRoot).screenMode = .hidden ∧
    (run plainHash firstStart becomeRoot).administrates = true ∧
    (run plainHash firstStart becomeRoot).currentAccount = some 0 ∧
    (run plainHash firstStart becomeRoot).database =
      seedDefaults plainHash (Vector.replicate _ 0) (Vector.replicate _ 0) := by
  decide +kernel

/-- A new account whose password is confirmed while the disk fails. -/
theorem commands_atomic_useradd :
    (run plainHash (run plainHash firstStart becomeRoot)
      (.command .useradd (cstring (ascii ['b', 'o', 'b'])) formattedDisk ::
        [(112, ⟨false, true, true, false⟩, Vector.replicate _ 0),
          (10, ⟨false, true, true, false⟩, Vector.replicate _ 0),
          (112, ⟨false, true, true, false⟩, Vector.replicate _ 0),
          (10, ⟨false, true, true, false⟩, Vector.replicate _ 0)].map
            fun k => .key k.1 k.2.1 k.2.2)).session =
      (run plainHash firstStart becomeRoot).session := by
  have hfails : Fails .useradd (cstring (ascii ['b', 'o', 'b'])) formattedDisk := trivial
  apply commands_atomic reachable_root root_state.1 hfails
  intro k hk
  simp only [List.mem_cons, List.not_mem_nil, or_false] at hk
  rcases hk with rfl | rfl | rfl | rfl <;> rfl

end NasuaOS.Authentication
