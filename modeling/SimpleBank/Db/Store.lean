import SimpleBank.World

/-! `SQLStore`: the queries, and the three operations that run several of them
in one transaction. -/
namespace SimpleBank.Db
open Library Call

/-- `fn` is given the transaction and runs its queries there. -/
def execTx {α : Type} (fn : Act (Except Err α)) : Act (Except Err α) := do
  match ← Call.begin with
  | .error err => return .error err
  | .ok () =>
    match ← fn with
    | .error err =>
      match ← rollback with
      | .error rbErr =>
        return .error (.text ("tx err: " ++ err.message ++ ", rb err: " ++ rbErr.message))
      | .ok () => return .error err
    | .ok result =>
      match ← commit with
      | .error err => return .error err
      | .ok () => return .ok result

structure TransferTxParams where
  fromAccountID : Int
  toAccountID : Int
  amount : Int64
  deriving DecidableEq, Repr

structure TransferTxResult where
  transfer : Transfer
  fromAccount : Account
  toAccount : Account
  fromEntry : Entry
  toEntry : Entry
  deriving DecidableEq, Repr

def addMoney (accountID1 : Int) (amount1 : Int64) (accountID2 : Int) (amount2 : Int64) :
    Act (Except Err (Account × Account)) := do
  match ← query .tx (.addAccountBalance ⟨amount1, accountID1⟩) with
  | .error err => return .error err
  | .ok account1 =>
    match ← query .tx (.addAccountBalance ⟨amount2, accountID2⟩) with
    | .error err => return .error err
    | .ok account2 => return .ok (account1, account2)

def transferTx (arg : TransferTxParams) : Act (Except Err TransferTxResult) := execTx do
  match ← query .tx (.createTransfer ⟨arg.fromAccountID, arg.toAccountID, arg.amount⟩) with
  | .error err => return .error err
  | .ok transfer =>
    match ← query .tx (.createEntry ⟨arg.fromAccountID, -arg.amount⟩) with
    | .error err => return .error err
    | .ok fromEntry =>
      match ← query .tx (.createEntry ⟨arg.toAccountID, arg.amount⟩) with
      | .error err => return .error err
      | .ok toEntry =>
        if arg.fromAccountID < arg.toAccountID then
          match ← addMoney arg.fromAccountID (-arg.amount) arg.toAccountID arg.amount with
          | .error err => return .error err
          | .ok (fromAccount, toAccount) =>
            return .ok { transfer, fromAccount, toAccount, fromEntry, toEntry }
        else
          match ← addMoney arg.toAccountID arg.amount arg.fromAccountID (-arg.amount) with
          | .error err => return .error err
          | .ok (toAccount, fromAccount) =>
            return .ok { transfer, fromAccount, toAccount, fromEntry, toEntry }

structure CreateUserTxParams where
  createUserParams : CreateUserParams
  afterCreate : User → Act (Except Err Unit)

def createUserTx (arg : CreateUserTxParams) : Act (Except Err User) := execTx do
  match ← query .tx (.createUser arg.createUserParams) with
  | .error err => return .error err
  | .ok user =>
    match ← arg.afterCreate user with
    | .error err => return .error err
    | .ok () => return .ok user

structure VerifyEmailTxParams where
  emailId : Int
  secretCode : String
  deriving DecidableEq, Repr

structure VerifyEmailTxResult where
  user : User
  verifyEmail : VerifyEmail
  deriving DecidableEq, Repr

def verifyEmailTx (arg : VerifyEmailTxParams) : Act (Except Err VerifyEmailTxResult) := execTx do
  match ← query .tx (.updateVerifyEmail ⟨arg.emailId, arg.secretCode⟩) with
  | .error err => return .error err
  | .ok verifyEmail =>
    match ← query .tx (.updateUser
      { hashedPassword := none, passwordChangedAt := none, fullName := none, email := none,
        isEmailVerified := some true, username := verifyEmail.username }) with
    | .error err => return .error err
    | .ok user => return .ok { user, verifyEmail }

end SimpleBank.Db
