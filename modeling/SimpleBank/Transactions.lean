import SimpleBank.Db.Store
import SimpleBank.Steps
import SimpleBank.Worker.SendVerifyEmail

/-! What the three transactions have done, at each of their calls, to the
history of the thread that runs them. -/
namespace SimpleBank
open Library Db Program

/-- The rows a thread has made durable. -/
def durableFrom : Option (List Ran) → History → List Row
  | _, [] => []
  | calls, exchange :: rest =>
    (committed calls exchange).flatMap Ran.rows ++ durableFrom (track calls exchange) rest

def durable (history : History) : List Row := durableFrom none history

/-- The rows a call writes if its transaction commits. -/
def issued : Exchange Op Op.Reply → List Row
  | ⟨.sql _ stmt, outcome⟩ => stmt.effect outcome
  | _ => []

/-- Every row the statements of a thread have written. -/
def writes (history : History) : List Row := history.flatMap issued

theorem durable_append (history : History) (exchange : Exchange Op Op.Reply) :
    durable (history ++ [exchange]) =
      durable history ++ (committed (openTx history) exchange).flatMap Ran.rows := by
  have general : ∀ (history : History) (calls : Option (List Ran)),
      durableFrom calls (history ++ [exchange]) = durableFrom calls history ++
        (committed (history.foldl track calls) exchange).flatMap Ran.rows := by
    intro history
    induction history with
    | nil => simp [durableFrom]
    | cons first rest ih => simp [durableFrom, ih]
  exact general history none

theorem writes_append (history : History) (exchange : Exchange Op Op.Reply) :
    writes (history ++ [exchange]) = writes history ++ issued exchange := by
  simp [writes]

/-- `later` continues `history` inside a transaction that has run `calls`. -/
structure Within (history later : History) (calls : List Ran) : Prop where
  continues : history <+: later
  opened : openTx later = some calls
  durable_eq : durable later = durable history
  writes_eq : writes later = writes history ++ calls.flatMap Ran.rows

/-- `later` continues `history` by a committed transaction that ran `calls`. -/
structure After (history later : History) (calls : List Ran) : Prop where
  continues : history <+: later
  closed : openTx later = none
  durable_eq : durable later = durable history ++ calls.flatMap Ran.rows
  writes_eq : writes later = writes history ++ calls.flatMap Ran.rows

/-- `later` continues `history` and has nothing to show for it. -/
structure Unchanged (history later : History) : Prop where
  continues : history <+: later
  closed : openTx later = none
  durable_eq : durable later = durable history

section Within

variable {history later : History} {calls : List Ran}

theorem Within.begin (hopen : openTx history = none) :
    Within history (history ++ [⟨.begin, .ok ()⟩]) [] where
  continues := List.prefix_append _ _
  opened := by
    rw [openTx_append, hopen]
    rfl
  durable_eq := by simp [durable_append, hopen, committed]
  writes_eq := by simp [writes_append, issued]

theorem Within.query (h : Within history later calls) (stmt : Stmt)
    (outcome : Except Err stmt.Result) :
    Within history (later ++ [⟨.sql .tx stmt, outcome⟩]) (calls ++ [⟨stmt, outcome⟩]) where
  continues := h.continues.trans (List.prefix_append _ _)
  opened := by
    rw [openTx_append, h.opened]
    rfl
  durable_eq := by
    rw [durable_append, h.opened, h.durable_eq]
    cases outcome <;> simp [committed]
  writes_eq := by
    rw [writes_append, h.writes_eq]
    simp [issued, Ran.rows]

theorem Within.enqueue (h : Within history later calls) (task : Worker.Task)
    (reply : Except Err Unit) : Within history (later ++ [⟨.enqueue task, reply⟩]) calls where
  continues := h.continues.trans (List.prefix_append _ _)
  opened := by
    rw [openTx_append, h.opened]
    rfl
  durable_eq := by
    rw [durable_append, h.opened, h.durable_eq]
    simp [committed]
  writes_eq := by
    rw [writes_append, h.writes_eq]
    simp [issued]

theorem Within.commit (h : Within history later calls) :
    After history (later ++ [⟨.commit, .ok ()⟩]) calls where
  continues := h.continues.trans (List.prefix_append _ _)
  closed := by
    rw [openTx_append, h.opened]
    rfl
  durable_eq := by
    rw [durable_append, h.opened, h.durable_eq]
    rfl
  writes_eq := by
    rw [writes_append, h.writes_eq]
    simp [issued]

theorem Within.commit_error (h : Within history later calls) (err : Err) :
    Unchanged history (later ++ [⟨.commit, .error err⟩]) where
  continues := h.continues.trans (List.prefix_append _ _)
  closed := by
    rw [openTx_append, h.opened]
    rfl
  durable_eq := by
    rw [durable_append, h.opened, h.durable_eq]
    simp [committed]

theorem Within.rollback (h : Within history later calls) (reply : Except Err Unit) :
    Unchanged history (later ++ [⟨.rollback, reply⟩]) where
  continues := h.continues.trans (List.prefix_append _ _)
  closed := by
    rw [openTx_append, h.opened]
    rfl
  durable_eq := by
    rw [durable_append, h.opened, h.durable_eq]
    simp [committed]

end Within

/-- What a transaction owes at its calls: `orders` before a statement, given
those it has run, and `commits` of all of them before it commits. -/
def TxOwes (orders : List Ran → Stmt → Prop) (commits : History → List Ran → Prop)
    (history later : History) : Op → Prop
  | .begin => later = history
  | .sql .tx stmt => ∃ calls, Within history later calls ∧ orders calls stmt
  | .commit => ∃ calls, Within history later calls ∧ commits later calls
  | .enqueue _ | .rollback => ∃ calls, Within history later calls
  | _ => False

/-- The body of a transaction ends inside it, with `result` if it succeeds. -/
def BodyPost {α : Type} (result : α → History → List Ran → Prop) (history later : History)
    (outcome : Except Err α) : Prop :=
  ∃ calls, Within history later calls ∧ ∀ value, outcome = .ok value → result value later calls

/-- How a transaction ends: committed with `calls`, or without a trace. -/
def TxPost {α : Type} (result : α → History → List Ran → Prop) (history later : History) :
    Except Err α → Prop
  | .ok value => ∃ before calls, later = before ++ [⟨.commit, .ok ()⟩] ∧
      After history later calls ∧ result value before calls
  | .error _ => Unchanged history later

section ExecTx

variable {α : Type} {owes : History → Op → Prop} {valid : (op : Op) → op.Reply → Prop}
  {orders : List Ran → Stmt → Prop} {result : α → History → List Ran → Prop} {history : History}

theorem always_call {post : History → α → Prop} {op : Op} {next : op.Reply → Act α}
    (howes : owes history op) (hnext : ∀ reply, valid op reply →
      Always owes valid post (history ++ [⟨op, reply⟩]) (next reply)) :
    Always owes valid post history (.call op next) :=
  ⟨howes, hnext⟩

theorem execTx_always {fn : Act (Except Err α)} (hopen : openTx history = none)
    (howes : ∀ later op, TxOwes orders (fun before calls => ∃ value, result value before calls)
      history later op → owes later op)
    (hfn : Within history (history ++ [⟨.begin, .ok ()⟩]) [] →
      Always owes valid (BodyPost result history) (history ++ [⟨.begin, .ok ()⟩]) fn) :
    Always owes valid (TxPost result history) history (execTx fn) := by
  unfold execTx
  refine always_call (howes _ _ rfl) fun reply _ => ?_
  cases reply with
  | error err =>
    refine ⟨List.prefix_append _ _, ?_, ?_⟩
    · rw [openTx_append, hopen]
      rfl
    · rw [durable_append, hopen]
      simp [committed]
  | ok value =>
    change Always owes valid (TxPost result history) _ (fn >>= _)
    refine Always.bind ?_ (hfn (.begin hopen))
    rintro later outcome ⟨calls, hwithin, hresult⟩
    cases outcome with
    | error err =>
      refine always_call (howes _ _ ⟨calls, hwithin⟩) fun reply _ => ?_
      cases reply with
      | error rbErr => exact hwithin.rollback _
      | ok value => exact hwithin.rollback _
    | ok value =>
      refine always_call (howes _ _ ⟨calls, hwithin, value, hresult value rfl⟩) fun reply _ => ?_
      cases reply with
      | error err => exact hwithin.commit_error err
      | ok value => exact ⟨later, calls, rfl, hwithin.commit, hresult _ rfl⟩

theorem bodyPost_error {later : History} {calls : List Ran} (h : Within history later calls)
    (err : Err) : BodyPost result history later (.error err) :=
  ⟨calls, h, fun _ hok => nomatch hok⟩

theorem bodyPost_ok {later : History} {calls : List Ran} (h : Within history later calls)
    {value : α} (hresult : result value later calls) :
    BodyPost result history later (.ok value) := by
  refine ⟨calls, h, ?_⟩
  rintro _ ⟨rfl⟩
  exact hresult

end ExecTx

/-- The two balance updates of a transfer, in ascending order of the ids. -/
def moneyCalls (arg : TransferTxParams) (fromAccount toAccount : Account) : List Ran :=
  if arg.fromAccountID < arg.toAccountID then
    [⟨.addAccountBalance ⟨-arg.amount, arg.fromAccountID⟩, .ok fromAccount⟩,
      ⟨.addAccountBalance ⟨arg.amount, arg.toAccountID⟩, .ok toAccount⟩]
  else
    [⟨.addAccountBalance ⟨arg.amount, arg.toAccountID⟩, .ok toAccount⟩,
      ⟨.addAccountBalance ⟨-arg.amount, arg.fromAccountID⟩, .ok fromAccount⟩]

/-- The five statements of a transfer that went through. -/
def transferCalls (arg : TransferTxParams) (result : TransferTxResult) : List Ran :=
  [⟨.createTransfer ⟨arg.fromAccountID, arg.toAccountID, arg.amount⟩, .ok result.transfer⟩,
    ⟨.createEntry ⟨arg.fromAccountID, -arg.amount⟩, .ok result.fromEntry⟩,
    ⟨.createEntry ⟨arg.toAccountID, arg.amount⟩, .ok result.toEntry⟩] ++
  moneyCalls arg result.fromAccount result.toAccount

/-- The statements of a transfer: accounts are updated in ascending order of
their ids, and the others only insert. -/
def Ascending (calls : List Ran) : Stmt → Prop
  | .addAccountBalance arg => ∀ ran ∈ calls, ∀ earlier,
      ran.stmt = .addAccountBalance earlier → earlier.id ≤ arg.id
  | .createTransfer _ | .createEntry _ => True
  | _ => False

section TransferTx

variable {owes : History → Op → Prop} {valid : (op : Op) → op.Reply → Prop} {history : History}

theorem addMoney_always {later : History} {calls : List Ran} (hwithin : Within history later calls)
    {accountID1 accountID2 : Int} {amount1 amount2 : Int64}
    (hfirst : Ascending calls (.addAccountBalance ⟨amount1, accountID1⟩))
    (hsecond : ∀ account, Ascending
      (calls ++ [⟨.addAccountBalance ⟨amount1, accountID1⟩, .ok account⟩])
      (.addAccountBalance ⟨amount2, accountID2⟩))
    (howes : ∀ later calls stmt, Within history later calls → Ascending calls stmt →
      owes later (.sql .tx stmt)) :
    Always owes valid (BodyPost (fun (accounts : Account × Account) _ ran => ran = calls ++
        [⟨.addAccountBalance ⟨amount1, accountID1⟩, .ok accounts.1⟩,
          ⟨.addAccountBalance ⟨amount2, accountID2⟩, .ok accounts.2⟩]) history)
      later (addMoney accountID1 amount1 accountID2 amount2) := by
  refine always_call (howes _ _ _ hwithin hfirst) fun reply _ => ?_
  have hone := hwithin.query _ reply
  cases reply with
  | error err => exact bodyPost_error hone err
  | ok account1 =>
  refine always_call (howes _ _ _ hone (hsecond account1)) fun reply _ => ?_
  have htwo := hone.query _ reply
  cases reply with
  | error err => exact bodyPost_error htwo err
  | ok account2 => exact bodyPost_ok htwo (by simp)

theorem transferTx_always {arg : TransferTxParams} (hopen : openTx history = none)
    (howes : ∀ later op, TxOwes Ascending (fun _ calls => ∃ result, calls = transferCalls arg result)
      history later op → owes later op) :
    Always owes valid (TxPost (fun result _ calls => calls = transferCalls arg result) history)
      history (transferTx arg) := by
  refine execTx_always hopen howes fun hbegin => ?_
  refine always_call (howes _ _ ⟨_, hbegin, trivial⟩) fun reply _ => ?_
  have htransfer := hbegin.query _ reply
  cases reply with
  | error err => exact bodyPost_error htransfer err
  | ok transfer =>
  refine always_call (howes _ _ ⟨_, htransfer, trivial⟩) fun reply _ => ?_
  have hfromEntry := htransfer.query _ reply
  cases reply with
  | error err => exact bodyPost_error hfromEntry err
  | ok fromEntry =>
  refine always_call (howes _ _ ⟨_, hfromEntry, trivial⟩) fun reply _ => ?_
  have htoEntry := hfromEntry.query _ reply
  cases reply with
  | error err => exact bodyPost_error htoEntry err
  | ok toEntry =>
  have hquery : ∀ later calls stmt, Within history later calls → Ascending calls stmt →
      owes later (.sql .tx stmt) := fun later calls stmt hwithin hascending =>
    howes later _ ⟨calls, hwithin, hascending⟩
  change Always owes valid _ _ (if arg.fromAccountID < arg.toAccountID then _ else _)
  split
  · rename_i hlt
    refine Always.bind ?_ (addMoney_always htoEntry (by simp [Ascending]) ?_ hquery)
    · rintro later outcome ⟨calls, hwithin, hresult⟩
      cases outcome with
      | error err => exact bodyPost_error hwithin err
      | ok accounts => exact bodyPost_ok hwithin (by simp [hresult _ rfl, transferCalls, moneyCalls, hlt])
    · intro account
      simpa [Ascending] using hlt.le
  · rename_i hge
    refine Always.bind ?_ (addMoney_always htoEntry (by simp [Ascending]) ?_ hquery)
    · rintro later outcome ⟨calls, hwithin, hresult⟩
      cases outcome with
      | error err => exact bodyPost_error hwithin err
      | ok accounts => exact bodyPost_ok hwithin (by simp [hresult _ rfl, transferCalls, moneyCalls, hge])
    · intro account
      simpa [Ascending] using hge

end TransferTx

/-- The row a user gets whose address has been verified. -/
def verifiedUser (username : String) : UpdateUserParams :=
  { hashedPassword := none, passwordChangedAt := none, fullName := none, email := none,
    isEmailVerified := some true, username := username }

def verifyEmailCalls (arg : VerifyEmailTxParams) (result : VerifyEmailTxResult) : List Ran :=
  [⟨.updateVerifyEmail ⟨arg.emailId, arg.secretCode⟩, .ok result.verifyEmail⟩,
    ⟨.updateUser (verifiedUser result.verifyEmail.username), .ok result.user⟩]

/-- The statements of a registration, and the task it has put in the queue. -/
def createUserCalls (arg : CreateUserParams) (task : Worker.Task) (user : User)
    (history : History) (calls : List Ran) : Prop :=
  calls = [⟨.createUser arg, .ok user⟩] ∧ ⟨.enqueue task, .ok ()⟩ ∈ history

/-- The statements of a verification, in order. -/
def VerifyEmailOrder (arg : VerifyEmailTxParams) (calls : List Ran) (stmt : Stmt) : Prop :=
  calls = [] ∧ stmt = .updateVerifyEmail ⟨arg.emailId, arg.secretCode⟩ ∨
    ∃ link, calls = [⟨.updateVerifyEmail ⟨arg.emailId, arg.secretCode⟩, .ok link⟩] ∧
      stmt = .updateUser (verifiedUser link.username)

/-- A registration runs one statement. -/
def CreateUserOrder (arg : CreateUserParams) (calls : List Ran) (stmt : Stmt) : Prop :=
  calls = [] ∧ stmt = .createUser arg

section OtherTx

variable {owes : History → Op → Prop} {valid : (op : Op) → op.Reply → Prop} {history : History}

theorem verifyEmailTx_always {arg : VerifyEmailTxParams} (hopen : openTx history = none)
    (howes : ∀ later op, TxOwes (VerifyEmailOrder arg)
      (fun _ calls => ∃ result, calls = verifyEmailCalls arg result) history later op →
      owes later op) :
    Always owes valid (TxPost (fun result _ calls => calls = verifyEmailCalls arg result) history)
      history (verifyEmailTx arg) := by
  refine execTx_always hopen howes fun hbegin => ?_
  refine always_call (howes _ _ ⟨_, hbegin, .inl ⟨rfl, rfl⟩⟩) fun reply _ => ?_
  have hverify := hbegin.query _ reply
  cases reply with
  | error err => exact bodyPost_error hverify err
  | ok verifyEmail =>
  refine always_call (howes _ _ ⟨_, hverify, .inr ⟨verifyEmail, rfl, rfl⟩⟩) fun reply _ => ?_
  have hupdate := hverify.query _ reply
  cases reply with
  | error err => exact bodyPost_error hupdate err
  | ok user => exact bodyPost_ok hupdate rfl

theorem createUserTx_always {arg : CreateUserParams} {opts : List Worker.TaskOption}
    (hopen : openTx history = none)
    (howes : ∀ later op, TxOwes (CreateUserOrder arg) (fun before calls => ∃ user : User,
      createUserCalls arg ⟨Worker.taskSendVerifyEmail, ⟨user.username⟩, opts⟩ user before calls)
      history later op → owes later op) :
    Always owes valid (TxPost (fun (user : User) before calls =>
        createUserCalls arg ⟨Worker.taskSendVerifyEmail, ⟨user.username⟩, opts⟩ user before calls)
        history) history
      (createUserTx ⟨arg, fun user => Worker.distributeTaskSendVerifyEmail ⟨user.username⟩ opts⟩) := by
  refine execTx_always hopen howes fun hbegin => ?_
  refine always_call (howes _ _ ⟨_, hbegin, rfl, rfl⟩) fun reply _ => ?_
  have hcreate := hbegin.query _ reply
  cases reply with
  | error err => exact bodyPost_error hcreate err
  | ok user =>
  refine always_call (howes _ _ ⟨_, hcreate⟩) fun reply _ => ?_
  cases reply with
  | error err => exact bodyPost_error (hcreate.enqueue _ (.error err)) _
  | ok value =>
    refine bodyPost_ok (hcreate.enqueue _ (.ok ())) ⟨rfl, ?_⟩
    exact List.mem_append_right _ List.mem_cons_self

end OtherTx

/-- What every call but a commit leaves true holds until the transaction is
committed by its last call. -/
theorem execTx_last {α : Type} {owes : History → Op → Prop} {P : History → Prop}
    (howes : ∀ {history op}, P history → (∀ stmt, op ≠ .sql .pool stmt) → owes history op)
    (hquiet : ∀ {history exchange}, P history → exchange ≠ ⟨.commit, .ok ()⟩ →
      P (history ++ [exchange]))
    {fn : Act (Except Err α)} {history : History} (hstart : P history)
    (hfn : ∀ {later}, P later → Always owes Valid (fun last _ => P last) later fn) :
    Always owes Valid (fun later outcome => match outcome with
      | .ok _ => ∃ before, later = before ++ [⟨.commit, .ok ()⟩]
      | .error _ => P later) history (execTx fn) := by
  unfold execTx
  refine always_call (howes hstart (by simp)) fun reply _ => ?_
  have hbegin : P (history ++ [⟨.begin, reply⟩]) := hquiet hstart (by rintro ⟨⟩)
  cases reply with
  | error err => exact hbegin
  | ok value =>
  change Always owes Valid _ _ (fn >>= _)
  refine Always.bind ?_ (hfn hbegin)
  intro later outcome hlater
  cases outcome with
  | error err =>
    refine always_call (howes hlater (by simp)) fun reply _ => ?_
    have hrollback : P (later ++ [⟨.rollback, reply⟩]) := hquiet hlater (by rintro ⟨⟩)
    cases reply with
    | error rbErr => exact hrollback
    | ok value => exact hrollback
  | ok result =>
    refine always_call (howes hlater (by simp)) fun reply _ => ?_
    cases reply with
    | error err => exact hquiet hlater (by rintro ⟨⟩)
    | ok value => exact ⟨later, rfl⟩

end SimpleBank
