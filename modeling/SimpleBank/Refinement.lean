import SimpleBank.Balances
import SimpleBank.Bank
import SimpleBank.Integrity
import SimpleBank.Profiles
import SimpleBank.Users

/-! The service refines the bank: every call of a request is nothing to the bank,
or the one operation that the request asks for, and the bank allows it. -/
namespace SimpleBank
open Library Db

def Db.User.member (user : User) : Member := ⟨user.fullName, user.email, user.isEmailVerified⟩

def Db.Account.held (account : Account) : Holding :=
  ⟨account.owner, account.currency, account.balance.toInt⟩

def Db.Transfer.remittance (transfer : Transfer) : Remittance :=
  ⟨transfer.fromAccountID, transfer.toAccountID, transfer.amount.toInt⟩

def Db.VerifyEmail.invitation (link : VerifyEmail) : Invitation :=
  ⟨link.username, link.secretCode, link.isUsed⟩

/-- The bank that the tables are about. -/
def bankOf (db : Database) : Bank where
  members username := (db.users.find? username).map User.member
  holdings id := (db.accounts.find? id).map Account.held
  remittances := db.transfers.rows.map Transfer.remittance
  invitations id := (db.verifyEmails.find? id).map VerifyEmail.invitation

/-- The operation that a call of a request carries out, if any. -/
def Job.operation (deps : Deps) (job : Job) : Exchange Op Op.Reply → Option Bank.Operation
  | ⟨.sql .pool (.createUser arg), .ok _⟩ => some (.register arg.username arg.fullName arg.email)
  | ⟨.sql .pool (.updateUser arg), .ok _⟩ => (job.bearer deps).map fun payload =>
      .edit payload.username payload.role arg.username arg.fullName arg.email
  | ⟨.sql .pool (.createAccount _), .ok row⟩ => (job.bearer deps).map fun payload =>
      .openAccount row.id payload.username row.currency
  | ⟨.sql .pool (.createVerifyEmail _), .ok row⟩ => some (.invite row.id row.username row.secretCode)
  | ⟨.commit, .ok _⟩ =>
    match job.request with
    | .rpcCreateUser req => some (.register req.username req.fullName req.email)
    | .rpcVerifyEmail req => some (.verify req.emailId req.secretCode)
    | .createTransfer _ (.ok req) => (job.bearer deps).map fun payload =>
        .pay payload.username ⟨req.fromAccountID, req.toAccountID, req.amount.toInt⟩
    | _ => none
  | _ => none

section Tables

variable {db : Database}

theorem map_find?_put {κ ρ β : Type} [DecidableEq κ] {key : ρ → κ} (table : Table κ ρ key) (row : ρ)
    (f : ρ → β) : (fun k => ((table.put row).find? k).map f) =
      Function.update (fun k => (table.find? k).map f) (key row) (some (f row)) := by
  funext k
  by_cases heq : k = key row
  · subst heq
    rw [Table.find?_put_self, Function.update_self, Option.map_some]
  · rw [Table.find?_put_of_ne _ _ heq, Function.update_of_ne heq]

theorem bankOf_put_user (db : Database) (row : User) : bankOf (db.put (.user row)) =
    { bankOf db with
      members := Function.update (bankOf db).members row.username (some row.member) } :=
  congrArg (fun members => { bankOf db with members }) (map_find?_put db.users row User.member)

theorem bankOf_put_account (db : Database) (row : Account) : bankOf (db.put (.account row)) =
    { bankOf db with holdings := Function.update (bankOf db).holdings row.id (some row.held) } :=
  congrArg (fun holdings => { bankOf db with holdings }) (map_find?_put db.accounts row Account.held)

theorem bankOf_put_verifyEmail (db : Database) (row : VerifyEmail) :
    bankOf (db.put (.verifyEmail row)) = { bankOf db with
      invitations := Function.update (bankOf db).invitations row.id (some row.invitation) } :=
  congrArg (fun invitations => { bankOf db with invitations })
    (map_find?_put db.verifyEmails row VerifyEmail.invitation)

/-- The unique index on the emails, as the bank sees it. -/
theorem emailFree_of_consistent {row : User} (h : (db.put (.user row)).Consistent) :
    (bankOf db).EmailFree row.username row.email := by
  intro other member hmember hemail
  obtain ⟨user, huser, rfl⟩ := Option.map_eq_some_iff.mp hmember
  by_contra hne
  have hother : (db.put (.user row)).lookup (.user other) = some (.user user) := by
    refine Database.lookup_user.mpr ?_
    exact (Table.find?_put_of_ne db.users row hne).trans huser
  have hrow : (db.put (.user row)).lookup (.user row.username) = some (.user row) :=
    Database.lookup_user.mpr (Table.find?_put_self db.users row)
  have hsame : Row.emailEntry (.user user) = some (.email row.email) :=
    congrArg (fun email => some (Key.email email)) hemail
  exact hne (Key.user.inj (h.emails hother hrow hsame rfl))

/-- The unique index on owners and currencies, as the bank sees it. -/
theorem holdingFree_of_consistent {row : Account} (h : (db.put (.account row)).Consistent)
    (hnone : db.accounts.find? row.id = none) {other : Int} {holding : Holding}
    (hholding : (bankOf db).holdings other = some holding) :
    ¬(holding.owner = row.owner ∧ holding.currency = row.currency) := by
  rintro ⟨howner, hcurrency⟩
  obtain ⟨account, haccount, rfl⟩ := Option.map_eq_some_iff.mp hholding
  have hne : other ≠ row.id := by
    rintro rfl
    cases hnone.symm.trans haccount
  have hother : (db.put (.account row)).lookup (.account other) = some (.account account) := by
    refine Database.lookup_account.mpr ?_
    exact (Table.find?_put_of_ne db.accounts row hne).trans haccount
  have hrow : (db.put (.account row)).lookup (.account row.id) = some (.account row) :=
    Database.lookup_account.mpr (Table.find?_put_self db.accounts row)
  have hsame : Row.ownerCurrencyEntry (.account account) =
      some (.ownerCurrency row.owner row.currency) := by
    rw [Row.ownerCurrencyEntry, show account.owner = row.owner from howner,
      show account.currency = row.currency from hcurrency]
  exact hne (Key.account.inj (h.ownerCurrencies hother hrow hsame rfl))

def Db.TransferTxParams.remittance (arg : TransferTxParams) : Remittance :=
  ⟨arg.fromAccountID, arg.toAccountID, arg.amount.toInt⟩

theorem share_remittance {arg : TransferTxParams} (hpositive : 0 < arg.amount) (id : Int) :
    arg.remittance.share id = arg.change id := by
  rw [TransferTxParams.change, toInt_neg_of_pos hpositive, Remittance.share,
    TransferTxParams.remittance]
  dsimp only
  split <;> split <;> omega

/-- A row that is updated is a member that is edited. -/
theorem bankOf_edited {arg : UpdateUserParams} {user : User}
    (huser : db.users.find? arg.username = some user) (hunverified : arg.isEmailVerified = none)
    (caller role : String) : bankOf (db.put (.user (arg.apply user))) =
      Bank.after (.edit caller role arg.username arg.fullName arg.email) (bankOf db) := by
  have hmember : (bankOf db).members arg.username = some user.member := by
    simp only [bankOf, huser, Option.map_some]
  have hedited : (arg.apply user).member = user.member.edited arg.fullName arg.email := by
    simp [User.member, UpdateUserParams.apply, hunverified, Member.edited]
  rw [bankOf_put_user, hedited,
    show (arg.apply user).username = arg.username from (Table.find?_mem huser).2]
  simp only [Bank.after, hmember, Option.map_some]

/-- A link that is used is an invitation that is used. -/
theorem bankOf_verified {id : Int} (code : String) {link : VerifyEmail} {user : User}
    (hlink : db.verifyEmails.find? id = some link)
    (huser : db.users.find? link.username = some user) :
    bankOf ((db.put (.verifyEmail { link with isUsed := true })).put
      (.user { user with isEmailVerified := true })) = Bank.after (.verify id code) (bankOf db) := by
  have hinvitation : (bankOf db).invitations id = some link.invitation := by
    simp only [bankOf, hlink, Option.map_some]
  have hmember : (bankOf db).members link.username = some user.member := by
    simp only [bankOf, huser, Option.map_some]
  rw [bankOf_put_user, bankOf_put_verifyEmail]
  simp only [Bank.after, hinvitation]
  rw [show link.invitation.username = link.username from rfl, hmember, Option.map_some,
    (Table.find?_mem huser).2, (Table.find?_mem hlink).2]
  rfl

/-- A transfer of the tables is a remittance of the bank. -/
theorem bankOf_payment {deps : Deps} {job : Job} {db' : Database} (payment : Payment deps job db db') :
    bankOf db' =
      Bank.after (.pay payment.payload.username payment.arg.remittance) (bankOf db) := by
  have happlied := payment.applied
  obtain ⟨hfrom, hto, hamount⟩ := happlied.transfer
  have hholdings : (bankOf db').holdings = fun id => ((bankOf db).holdings id).map fun holding =>
      { holding with balance := holding.balance + payment.arg.remittance.share id } := by
    funext id
    cases hfind : db.accounts.find? id with
    | none => simp only [bankOf, hfind, happlied.find?_none hfind, Option.map_none]
    | some account =>
      obtain ⟨moved, hmoved, hbalance, hrest⟩ := happlied.find? hfind
      simp only [bankOf, hfind, hmoved, Option.map_some, Account.held]
      rw [hbalance, share_remittance payment.positive, hrest]
  have hremittances : (bankOf db').remittances =
      (bankOf db).remittances ++ [payment.arg.remittance] := by
    have hrow : payment.result.transfer.remittance = payment.arg.remittance := by
      rw [Transfer.remittance, hfrom, hto, hamount, TransferTxParams.remittance]
    simp only [bankOf, happlied.database]
    rw [Table.rows_put_fresh happlied.freshTransfer, List.map_append, List.map_singleton, hrow]
  have hmembers : (bankOf db').members = (bankOf db).members := by
    rw [happlied.database]
    rfl
  have hinvitations : (bankOf db').invitations = (bankOf db).invitations := by
    rw [happlied.database]
    rfl
  rw [Bank.after, ← hholdings, ← hremittances, ← hmembers, ← hinvitations]

end Tables

section Takes

variable {deps : Deps} {ok : ServiceConfig → Event Job Choice External → Prop} {w : World}
  {config next : ServiceConfig} {thread : Nat} {job : Job} {history : History}

/-- A statement outside a transaction. -/
theorem matches_pool {stmt : Stmt} {row : stmt.Result} {generated : Int} {now : Time} {db : Database}
    (howes : PoolOwes deps job history stmt) (hyields : stmt.Yields generated now db row)
    (hconsistent : (Store.write db (stmt.written row)).Consistent) :
    Bank.machine.Matches (bankOf db) (job.operation deps ⟨.sql .pool stmt, .ok row⟩)
      (bankOf (Store.write db (stmt.written row))) := by
  cases stmt with
  | createUser arg =>
    obtain ⟨hnone, rfl⟩ := hyields
    have hmember : (bankOf db).members arg.username = none :=
      Option.map_eq_none_iff.mpr (Option.map_eq_none_iff.mp hnone)
    exact ⟨⟨hmember, emailFree_of_consistent hconsistent⟩, bankOf_put_user db _⟩
  | updateUser arg =>
    obtain ⟨ctx, req, payload, -, hbearer, hrole, -, -, -, -, hunverified, -⟩ := howes
    obtain ⟨user, huser, rfl⟩ := hyields
    have hfind := Database.lookup_user.mp huser
    have hname : user.username = arg.username := (Table.find?_mem hfind).2
    have hmember : (bankOf db).members arg.username = some user.member := by
      simp only [bankOf, hfind, Option.map_some]
    simp only [Job.operation, hbearer, Option.map_some]
    refine ⟨⟨hrole, by rw [hmember]; rfl, ?_⟩, ?_⟩
    · intro new hnew
      have hfree : (bankOf db).EmailFree (arg.apply user).username (arg.apply user).email :=
        emailFree_of_consistent hconsistent
      rw [show (arg.apply user).email = new by simp [UpdateUserParams.apply, hnew],
        show (arg.apply user).username = arg.username from hname] at hfree
      exact hfree
    · exact bankOf_edited hfind hunverified payload.username payload.role
  | createAccount arg =>
    obtain ⟨_, req, payload, -, hbearer, rfl, hsupported⟩ := howes
    obtain ⟨⟨-, hnone⟩, howner, rfl⟩ := hyields
    have hfind := Option.map_eq_none_iff.mp hnone
    have hmember : ((bankOf db).members payload.username).isSome = true := by
      simpa [bankOf, Database.lookup] using howner
    simp only [Job.operation, hbearer, Option.map_some]
    refine ⟨⟨Option.map_eq_none_iff.mpr hfind, hmember, hsupported, fun _ _ hholding =>
      holdingFree_of_consistent hconsistent hfind hholding⟩, bankOf_put_account db _⟩
  | createSession arg => exact rfl
  | createVerifyEmail arg =>
    obtain ⟨⟨-, hnone⟩, huser, rfl⟩ := hyields
    have hmember : ((bankOf db).members arg.username).isSome = true := by
      simpa [bankOf, Database.lookup] using huser
    exact ⟨⟨Option.map_eq_none_iff.mpr (Option.map_eq_none_iff.mp hnone), hmember⟩,
      bankOf_put_verifyEmail db _⟩
  | addAccountBalance _ | createEntry _ | createTransfer _ | updateVerifyEmail _ =>
    exact howes.elim
  | getUser _ | getAccount _ | listAccounts _ | getSession _ => exact rfl

/-- What a commit makes of the bank. -/
theorem matches_commit (hstart : w.txs = .empty)
    (hreach : (service deps).Reach ok (.initial w) config)
    (htakes : (service deps).Takes config thread job .commit (.ok ()) next)
    (hconsistent : next.world.db.Consistent) :
    Bank.machine.Matches (bankOf config.world.db) (job.operation deps ⟨.commit, .ok ()⟩)
      (bankOf next.world.db) := by
  have hchange := change_of_takes hstart hreach htakes
  have husers := userChange_of_takes hstart hreach htakes
  generalize hexchange : (⟨.commit, .ok ()⟩ : Exchange Op Op.Reply) = exchange at hchange
  generalize next.world.db = db' at hchange husers hconsistent
  cases hchange with
  | nothing hne => exact absurd hexchange.symm hne
  | user row hregisters hfree hunverified =>
    subst hexchange
    have hfound : (config.world.db.put (.user row)).users.find? row.username = some row :=
      Table.find?_put_self _ row
    rcases husers row.username with hsame | ⟨found, hrow, hchange⟩
    · cases hfree.symm.trans (hsame.symm.trans hfound)
    cases hfound.symm.trans hrow
    rw [hfree] at hchange
    cases hchange with
    | registered req hashedPassword _ hjob _ hinserts _ =>
      obtain ⟨createdAt, rfl⟩ := hinserts
      simp only [Job.operation, hjob]
      exact ⟨⟨Option.map_eq_none_iff.mpr hfree, emailFree_of_consistent hconsistent⟩,
        bankOf_put_user _ _⟩
  | payment payment =>
    obtain ⟨authorization, req, hjob, harg, -⟩ :=
      Job.request_of_transfer payment.requested payment.bearer
    have hoperation : job.operation deps ⟨.commit, .ok ()⟩ =
        some (.pay payment.payload.username payment.arg.remittance) := by
      simp only [Job.operation, hjob, payment.bearer, Option.map_some, harg,
        TransferTxParams.remittance]
    rw [hoperation]
    refine ⟨⟨Int64.lt_iff_toInt_lt.mp payment.positive, payment.fromAccount.held,
      payment.toAccount.held, ?_, ?_, payment.owned, payment.sameCurrency⟩, bankOf_payment payment⟩
    · simp only [bankOf, TransferTxParams.remittance, payment.from_eq, Option.map_some]
    · simp only [bankOf, TransferTxParams.remittance, payment.to_eq, Option.map_some]
  | verified arg tx link user hjob _ hlink hselects huser =>
    obtain ⟨req, hrequest, rfl⟩ := Job.request_of_link hjob
    obtain ⟨-, hcode, hunused, -⟩ := selects_iff.mp hselects
    have hinvitation : (bankOf config.world.db).invitations req.emailId = some link.invitation := by
      simp only [bankOf, hlink, Option.map_some]
    have hmember : ((bankOf config.world.db).members link.username).isSome = true := by
      simp [bankOf, huser]
    simp only [Job.operation, hrequest]
    exact ⟨⟨link.invitation, hinvitation, hcode, hunused, hmember⟩, bankOf_verified req.secretCode hlink huser⟩
  | profile _ _ _ _ | account _ _ _ _ _ | session _ _ _ | link _ _ _ _ _ => cases hexchange

/-- Each call of a request is nothing to the bank, or the operation it carries out. -/
theorem matches_of_takes (hstart : w.txs = .empty)
    (hreach : (service deps).Reach ok (.initial w) config) {op : Op} {reply : op.Reply}
    (htakes : (service deps).Takes config thread job op reply next)
    (hconsistent : next.world.db.Consistent) :
    Bank.machine.Matches (bankOf config.world.db) (job.operation deps ⟨op, reply⟩)
      (bankOf next.world.db) := by
  have hregular := Regular.reach hstart hreach
  have hstep : config.world.step deps thread htakes.choice op = some (reply, next.world) :=
    htakes.step_eq
  have nothing : job.operation deps ⟨op, reply⟩ = none →
      committed (openTx (config.history thread)) ⟨op, reply⟩ = [] →
      Bank.machine.Matches (bankOf config.world.db) (job.operation deps ⟨op, reply⟩)
        (bankOf next.world.db) := by
    intro hnone hnil
    rw [hnone, World.step_db_of_committed_nil hregular.sound (hregular.tracks thread) hstep hnil]
    exact rfl
  cases op with
  | sql conn stmt =>
    cases conn with
    | pool =>
      cases reply with
      | error err =>
        exact nothing (by cases stmt <;> rfl) (by cases openTx (config.history thread) <;> rfl)
      | ok row =>
        obtain ⟨_, _, hyields, hdb⟩ := World.pool_executes hstep
        rw [hdb] at hconsistent ⊢
        exact matches_pool ((service_verified deps).at_call hreach htakes) hyields hconsistent
    | tx => exact nothing rfl (by cases openTx (config.history thread) <;> rfl)
  | commit =>
    cases reply with
    | error err => exact nothing rfl (by cases openTx (config.history thread) <;> rfl)
    | ok value => exact matches_commit hstart hreach htakes hconsistent
  | begin | rollback | generateFromPassword _ | newRandom | encrypt _ | enqueue _
    | randomString _ | sendEmail _ =>
    exact nothing rfl (by cases openTx (config.history thread) <;> rfl)

/-- Every run of the served requests is a run of the bank: the operations that the
requests have carried out, in the order of their calls, are allowed one after
another and lead to the bank of the present tables. -/
theorem performs_of_reach (hstart : w.txs = .empty) (hinit : w.db.Consistent)
    (hreach : (service deps).Reach (fun _ event => Sequenced event) (.initial w) config) :
    Bank.machine.Performs (bankOf w.db) (config.operations (Job.operation deps))
      (bankOf config.world.db) := by
  refine hreach.performs (fun world => bankOf world.db) ?_ ?_
  · intro config next thread job op reply hreach hnext htakes
    exact matches_of_takes hstart hreach htakes
      (Intact.reach hstart hinit (fun _ _ h => h) hnext).consistent
  · intro change state later hexternal
    obtain ⟨-, -, -, -, hdb | ⟨row, -, -, hdb⟩⟩ := World.external_spec hexternal
    · rw [hdb]
    · rw [hdb]
      rfl

end Takes
end SimpleBank
