import SimpleBank.Db.Statement

/-! What the statements do when they succeed, one lemma for each, and that a
statement writes only rows it has locked and keeps what an update has to keep. -/
namespace SimpleBank.Db
open Library

@[simp] theorem orNoRows_eq_ok {ρ : Type} {found : Option ρ} {row : ρ} :
    orNoRows found = .ok row ↔ found = some row := by
  cases found <;> simp [orNoRows]

section Eval

variable {generated : Int} {now : Time} {db : Database}

theorem evalCreateUser_eq_ok {arg : CreateUserParams} {row : User} :
    evalCreateUser now db arg = .ok row ↔
      db.users.find? arg.username = none ∧ db.emailTaken arg.email = false ∧
        row = ⟨arg.username, arg.hashedPassword, arg.fullName, arg.email, zeroTime, now, false,
          "depositor"⟩ := by
  simp [evalCreateUser, bind_eq_ok, pure, Except.pure, @eq_comm _ _ row]

theorem evalUpdateUser_eq_ok {arg : UpdateUserParams} {row : User} :
    evalUpdateUser db arg = .ok row ↔
      ∃ user, db.users.find? arg.username = some user ∧
        db.emailTakenBy arg.username (arg.apply user).email = false ∧ row = arg.apply user := by
  simp [evalUpdateUser, bind_eq_ok, pure, Except.pure, @eq_comm _ _ row]

theorem evalCreateAccount_eq_ok {arg : CreateAccountParams} {row : Account} :
    evalCreateAccount generated now db arg = .ok row ↔
      db.ownerCurrencyTaken arg.owner arg.currency = false ∧
        (db.users.find? arg.owner).isSome = true ∧
        row = ⟨generated, arg.owner, arg.balance, arg.currency, now⟩ := by
  simp [evalCreateAccount, bind_eq_ok, pure, Except.pure, @eq_comm _ _ row]

theorem mem_of_evalListAccounts {arg : ListAccountsParams} {rows : List Account}
    (h : evalListAccounts db arg = .ok rows) {account : Account} (hmem : account ∈ rows) :
    account ∈ db.accounts.rows := by
  unfold evalListAccounts at h
  split at h
  · cases h
  · split at h
    · cases h
    · cases h
      have hsorted := List.mem_of_mem_drop (List.mem_of_mem_take hmem)
      exact (List.mem_filter.mp ((List.perm_insertionSort _ _).mem_iff.mp hsorted)).1

theorem evalAddAccountBalance_eq_ok {arg : AddAccountBalanceParams} {row : Account} :
    evalAddAccountBalance db arg = .ok row ↔
      ∃ account, db.accounts.find? arg.id = some account ∧
        row.balance.toInt = account.balance.toInt + arg.amount.toInt ∧
        row = { account with balance := row.balance } := by
  simp only [evalAddAccountBalance, bind_eq_ok, orNoRows_eq_ok, addBigint_eq_ok, pure,
    Except.pure, Except.ok.injEq]
  constructor
  · rintro ⟨account, hfind, balance, hbalance, rfl⟩
    exact ⟨account, hfind, hbalance, rfl⟩
  · rintro ⟨account, hfind, hbalance, hrow⟩
    exact ⟨account, hfind, row.balance, hbalance, hrow.symm⟩

theorem evalCreateEntry_eq_ok {arg : CreateEntryParams} {row : Entry} :
    evalCreateEntry generated now db arg = .ok row ↔
      (db.accounts.find? arg.accountID).isSome = true ∧
        row = ⟨generated, arg.accountID, arg.amount, now⟩ := by
  simp [evalCreateEntry, bind_eq_ok, pure, Except.pure, @eq_comm _ _ row]

theorem evalCreateTransfer_eq_ok {arg : CreateTransferParams} {row : Transfer} :
    evalCreateTransfer generated now db arg = .ok row ↔
      (db.accounts.find? arg.fromAccountID).isSome = true ∧
        (db.accounts.find? arg.toAccountID).isSome = true ∧
        row = ⟨generated, arg.fromAccountID, arg.toAccountID, arg.amount, now⟩ := by
  simp [evalCreateTransfer, bind_eq_ok, pure, Except.pure, @eq_comm _ _ row]

theorem evalCreateSession_eq_ok {arg : CreateSessionParams} {row : Session} :
    evalCreateSession now db arg = .ok row ↔
      db.sessions.find? arg.id = none ∧ (db.users.find? arg.username).isSome = true ∧
        row = ⟨arg.id, arg.username, arg.refreshToken, arg.userAgent, arg.clientIp,
          arg.isBlocked, timestamptz arg.expiresAt, now⟩ := by
  simp [evalCreateSession, bind_eq_ok, pure, Except.pure, @eq_comm _ _ row]

theorem evalCreateVerifyEmail_eq_ok {arg : CreateVerifyEmailParams} {row : VerifyEmail} :
    evalCreateVerifyEmail generated now db arg = .ok row ↔
      (db.users.find? arg.username).isSome = true ∧
        row = ⟨generated, arg.username, arg.email, arg.secretCode, false, now,
          now + verifyEmailLifetime⟩ := by
  simp [evalCreateVerifyEmail, bind_eq_ok, pure, Except.pure, @eq_comm _ _ row]

theorem evalUpdateVerifyEmail_eq_ok {arg : UpdateVerifyEmailParams} {row : VerifyEmail} :
    evalUpdateVerifyEmail now db arg = .ok row ↔
      ∃ old, db.verifyEmails.find? arg.id = some old ∧ arg.selects now old = true ∧
        row = { old with isUsed := true } := by
  simp [evalUpdateVerifyEmail, bind_eq_ok, Option.filter_eq_some_iff, pure, Except.pure,
    @eq_comm _ _ row, and_assoc]

/-! And why they fail, where the code looks at it. -/

theorem evalCreateUser_error {arg : CreateUserParams} {err : Err}
    (h : evalCreateUser now db arg = .error err) : ∃ message, err = .pg uniqueViolation message := by
  unfold evalCreateUser unique at h
  split at h
  · cases h
    exact ⟨_, rfl⟩
  · split at h
    · cases h
      exact ⟨_, rfl⟩
    · cases h

theorem evalUpdateUser_refused {arg : UpdateUserParams} :
    (∃ err, evalUpdateUser db arg = .error err ∧ err.isRecordNotFound = false) ↔
      ∃ user, db.users.find? arg.username = some user ∧
        db.emailTakenBy arg.username (arg.apply user).email = true := by
  cases hfind : db.users.find? arg.username with
  | none => simp [evalUpdateUser, hfind, orNoRows, bind, Except.bind, Err.isRecordNotFound]
  | some user =>
    cases htaken : db.emailTakenBy arg.username (arg.apply user).email with
    | true =>
      simp [evalUpdateUser, hfind, htaken, orNoRows, unique, bind, Except.bind, Err.isRecordNotFound]
    | false =>
      simp [evalUpdateUser, hfind, htaken, orNoRows, unique, bind, Except.bind, pure, Except.pure]

theorem evalCreateSession_refused {arg : CreateSessionParams}
    (huser : (db.users.find? arg.username).isSome = true) :
    (∃ err, evalCreateSession now db arg = .error err) ↔
      (db.sessions.find? arg.id).isSome = true := by
  cases hfind : db.sessions.find? arg.id with
  | none =>
    simp [evalCreateSession, hfind, huser, unique, references, bind, Except.bind, pure, Except.pure]
  | some session => simp [evalCreateSession, hfind, unique, bind, Except.bind]

theorem evalUpdateVerifyEmail_refused {arg : UpdateVerifyEmailParams} :
    (∃ err, evalUpdateVerifyEmail now db arg = .error err) ↔
      (db.verifyEmails.find? arg.id).filter (arg.selects now) = none := by
  unfold evalUpdateVerifyEmail
  cases (db.verifyEmails.find? arg.id).filter (arg.selects now) with
  | none => simp [orNoRows, bind, Except.bind]
  | some link => simp [orNoRows, bind, Except.bind, pure, Except.pure]

end Eval

namespace Stmt

variable {generated : Int} {now : Time} {db : Database}

theorem freshSerial_iff {stmt : Stmt} : freshSerial generated db stmt = true ↔
    ∀ k ∈ stmt.serialKey generated, 0 < generated ∧ db.lookup k = none := by
  simp [freshSerial]

private theorem covers_singleton {locks : List (Lock Key)} {new : Row} {lock : Lock Key}
    (hlock : lock ∈ locks) (hkey : lock.key = new.key) (hmode : lock.mode.exclusive = true) :
    ∀ row ∈ [new], ∃ lock ∈ locks, lock.key = row.key ∧ lock.mode.exclusive = true := by
  intro row hrow
  rw [List.mem_singleton.mp hrow]
  exact ⟨lock, hlock, hkey, hmode⟩

/-- A statement that succeeds holds an exclusive lock on each row it wrote. -/
theorem covers_written {stmt : Stmt} {row : stmt.Result}
    (h : eval generated now db stmt = .ok row) : ∀ new ∈ stmt.written row,
      ∃ lock ∈ stmt.locks generated now db, lock.key = new.key ∧ lock.mode.exclusive = true := by
  cases stmt with
  | createUser arg =>
    obtain ⟨-, -, rfl⟩ := evalCreateUser_eq_ok.mp h
    exact covers_singleton List.mem_cons_self rfl rfl
  | updateUser arg =>
    obtain ⟨user, hfind, -, rfl⟩ := evalUpdateUser_eq_ok.mp h
    obtain ⟨-, husername⟩ := Table.find?_mem hfind
    have hkey : Key.user arg.username = Row.key (.user (arg.apply user)) :=
      congrArg Key.user husername.symm
    by_cases hemail : (arg.apply user).email = user.email
    · have hlock : ⟨.user arg.username, .noKeyUpdate⟩ ∈ locks generated now db (.updateUser arg) := by
        simp [locks, requests, hfind, hemail]
      exact covers_singleton hlock hkey rfl
    · have hlock : ⟨.user arg.username, .update⟩ ∈ locks generated now db (.updateUser arg) := by
        simp [locks, requests, hfind, hemail]
      exact covers_singleton hlock hkey rfl
  | createAccount arg =>
    obtain ⟨-, -, rfl⟩ := evalCreateAccount_eq_ok.mp h
    exact covers_singleton (List.mem_append_right _ List.mem_cons_self) rfl rfl
  | addAccountBalance arg =>
    obtain ⟨account, hfind, -, hrow⟩ := evalAddAccountBalance_eq_ok.mp h
    obtain ⟨-, hid⟩ := Table.find?_mem hfind
    have hlock : ⟨.account arg.id, .noKeyUpdate⟩ ∈
        locks generated now db (.addAccountBalance arg) := by
      simp [locks, requests, hfind]
    refine covers_singleton hlock ?_ rfl
    rw [hrow]
    exact congrArg Key.account hid.symm
  | createEntry arg =>
    obtain ⟨-, rfl⟩ := evalCreateEntry_eq_ok.mp h
    exact covers_singleton (List.mem_append_right _ List.mem_cons_self) rfl rfl
  | createTransfer arg =>
    obtain ⟨-, -, rfl⟩ := evalCreateTransfer_eq_ok.mp h
    exact covers_singleton (List.mem_append_right _ List.mem_cons_self) rfl rfl
  | createSession arg =>
    obtain ⟨-, -, rfl⟩ := evalCreateSession_eq_ok.mp h
    exact covers_singleton List.mem_cons_self rfl rfl
  | createVerifyEmail arg =>
    obtain ⟨-, rfl⟩ := evalCreateVerifyEmail_eq_ok.mp h
    exact covers_singleton (List.mem_append_right _ List.mem_cons_self) rfl rfl
  | updateVerifyEmail arg =>
    obtain ⟨old, hfind, hselects, rfl⟩ := evalUpdateVerifyEmail_eq_ok.mp h
    obtain ⟨-, hid⟩ := Table.find?_mem hfind
    have hlock : ⟨.verifyEmail arg.id, .noKeyUpdate⟩ ∈
        locks generated now db (.updateVerifyEmail arg) := by
      simp [locks, requests, hfind, hselects]
    exact covers_singleton hlock (congrArg Key.verifyEmail hid.symm) rfl
  | getUser _ | getAccount _ | listAccounts _ | getSession _ =>
    intro _ hnew
    cases hnew

end Stmt
end SimpleBank.Db
