import SimpleBank.Privacy
import SimpleBank.Sessions

/-! Password hashes: two databases that differ in the hashes of passwords only,
and check every password alike, are the same to every caller. -/
namespace SimpleBank
open Library Db Program

/-- The same user but for a hash that checks every password alike. -/
def SameUser (deps : Deps) (user other : User) : Prop :=
  ∃ hashedPassword, other = { user with hashedPassword } ∧ ∀ password,
    Util.checkPassword deps password hashedPassword =
      Util.checkPassword deps password user.hashedPassword

/-- The same database but for such hashes. -/
structure SameButHashes (deps : Deps) (db db' : Database) : Prop where
  users : Table.Related (SameUser deps) db.users db'.users
  accounts : db'.accounts = db.accounts
  entries : db'.entries = db.entries
  transfers : db'.transfers = db.transfers
  sessions : db'.sessions = db.sessions
  verifyEmails : db'.verifyEmails = db.verifyEmails

def SameRow (deps : Deps) : Row → Row → Prop
  | .user row, .user other => SameUser deps row other
  | row, other => row = other

/-- Results of statements, users being the same but for such hashes. -/
def SameResults (deps : Deps) : (stmt : Stmt) → stmt.Result → stmt.Result → Prop
  | .createUser _, row, other | .getUser _, row, other | .updateUser _, row, other =>
    SameUser deps row other
  | _, row, other => row = other

section Statements

variable {deps : Deps} {user other : User} {db db' : Database}

theorem SameUser.refl (user : User) : SameUser deps user user := ⟨_, rfl, fun _ => rfl⟩

theorem SameUser.apply (h : SameUser deps user other) (arg : UpdateUserParams) :
    SameUser deps (arg.apply user) (arg.apply other) := by
  obtain ⟨hashedPassword, rfl, hchecks⟩ := h
  refine ⟨arg.hashedPassword.getD hashedPassword, rfl, fun password => ?_⟩
  change _ = Util.checkPassword deps password (arg.hashedPassword.getD user.hashedPassword)
  cases arg.hashedPassword with
  | none => exact hchecks password
  | some _ => rfl

theorem outcomes_refl {α : Type} {related : α → α → Prop} (h : ∀ value, related value value)
    (outcome : Except Err α) : Outcomes related outcome outcome := by
  cases outcome with
  | error err => rfl
  | ok value => exact h value

theorem SameRow.refl (row : Row) : SameRow deps row row := by
  cases row with
  | user row => exact SameUser.refl row
  | _ => rfl

namespace SameButHashes

variable (h : SameButHashes deps db db')

include h

theorem put {row row' : Row} (hrow : SameRow deps row row') :
    SameButHashes deps (db.put row) (db'.put row') := by
  obtain ⟨husers, haccounts, hentries, htransfers, hsessions, hverifyEmails⟩ := h
  cases row with
  | user row =>
    cases row' with
    | user row' =>
      have hkey : row.username = row'.username := by
        obtain ⟨_, rfl, -⟩ := hrow
        rfl
      exact ⟨husers.put hrow hkey, haccounts, hentries, htransfers, hsessions, hverifyEmails⟩
    | _ => cases hrow
  | account row =>
    cases hrow
    exact ⟨husers, congrArg (·.put row) haccounts, hentries, htransfers, hsessions, hverifyEmails⟩
  | entry row =>
    cases hrow
    exact ⟨husers, haccounts, congrArg (·.put row) hentries, htransfers, hsessions, hverifyEmails⟩
  | transfer row =>
    cases hrow
    exact ⟨husers, haccounts, hentries, congrArg (·.put row) htransfers, hsessions, hverifyEmails⟩
  | session row =>
    cases hrow
    exact ⟨husers, haccounts, hentries, htransfers, congrArg (·.put row) hsessions, hverifyEmails⟩
  | verifyEmail row =>
    cases hrow
    exact ⟨husers, haccounts, hentries, htransfers, hsessions, congrArg (·.put row) hverifyEmails⟩

theorem isSome_user (username : String) :
    (db'.users.find? username).isSome = (db.users.find? username).isSome :=
  (h.users.isSome_eq username).symm

theorem emailTaken (email : String) : db'.emailTaken email = db.emailTaken email := by
  refine (h.users.any_eq fun row other hrow => ?_).symm
  obtain ⟨_, rfl, -⟩ := hrow
  rfl

theorem emailTakenBy (username email : String) :
    db'.emailTakenBy username email = db.emailTakenBy username email := by
  refine (h.users.any_eq fun row other hrow => ?_).symm
  obtain ⟨_, rfl, -⟩ := hrow
  rfl

theorem ownerCurrencyTaken (owner currency : String) :
    db'.ownerCurrencyTaken owner currency = db.ownerCurrencyTaken owner currency := by
  rw [Database.ownerCurrencyTaken, h.accounts, Database.ownerCurrencyTaken]

theorem lookup_isSome (k : Key) : (db'.lookup k).isSome = (db.lookup k).isSome := by
  cases k <;> simp [Database.lookup, h.isSome_user, h.accounts, h.entries, h.transfers, h.sessions,
    h.verifyEmails]

theorem evalUpdateUser (arg : UpdateUserParams) :
    Outcomes (SameUser deps) (evalUpdateUser db arg) (evalUpdateUser db' arg) := by
  unfold Db.evalUpdateUser
  rcases h.users.find?_cases arg.username with ⟨hleft, hright⟩ | ⟨user, other, hleft, hright, huser⟩
  · rw [hleft, hright]
    rfl
  · have hemail : (arg.apply other).email = (arg.apply user).email := by
      obtain ⟨_, rfl, -⟩ := huser
      rfl
    simp only [hleft, hright, orNoRows, Bind.bind, Except.bind, h.emailTakenBy, hemail]
    cases db.emailTakenBy arg.username (arg.apply user).email with
    | true => rfl
    | false => exact huser.apply arg

/-- A statement has the same result, and hands over no more than the hash. -/
theorem eval (generated : Int) (now : Time) (stmt : Stmt) :
    Outcomes (SameResults deps stmt) (stmt.eval generated now db) (stmt.eval generated now db') := by
  have same : ∀ {stmt : Stmt}, stmt.eval generated now db' = stmt.eval generated now db →
      (∀ row, SameResults deps stmt row row) →
      Outcomes (SameResults deps stmt) (stmt.eval generated now db) (stmt.eval generated now db') := by
    intro stmt heval hrefl
    rw [heval]
    exact outcomes_refl hrefl _
  cases stmt with
  | createUser arg =>
    refine same ?_ SameUser.refl
    change evalCreateUser now db' arg = evalCreateUser now db arg
    simp only [evalCreateUser, h.isSome_user, h.emailTaken]
  | getUser username =>
    simp only [Stmt.eval, evalGetUser]
    rcases h.users.find?_cases username with ⟨hleft, hright⟩ | ⟨user, other, hleft, hright, huser⟩
    · rw [hleft, hright]
      rfl
    · rw [hleft, hright]
      exact huser
  | updateUser arg => exact h.evalUpdateUser arg
  | createAccount arg =>
    refine same ?_ fun _ => rfl
    change evalCreateAccount generated now db' arg = evalCreateAccount generated now db arg
    simp only [evalCreateAccount, h.ownerCurrencyTaken, h.isSome_user]
  | getAccount id =>
    refine same ?_ fun _ => rfl
    change evalGetAccount db' id = evalGetAccount db id
    simp only [evalGetAccount, h.accounts]
  | listAccounts arg =>
    refine same ?_ fun _ => rfl
    change evalListAccounts db' arg = evalListAccounts db arg
    simp only [evalListAccounts, h.accounts]
  | addAccountBalance arg =>
    refine same ?_ fun _ => rfl
    change evalAddAccountBalance db' arg = evalAddAccountBalance db arg
    simp only [evalAddAccountBalance, h.accounts]
  | createEntry arg =>
    refine same ?_ fun _ => rfl
    change evalCreateEntry generated now db' arg = evalCreateEntry generated now db arg
    simp only [evalCreateEntry, h.accounts]
  | createTransfer arg =>
    refine same ?_ fun _ => rfl
    change evalCreateTransfer generated now db' arg = evalCreateTransfer generated now db arg
    simp only [evalCreateTransfer, h.accounts]
  | createSession arg =>
    refine same ?_ fun _ => rfl
    change evalCreateSession now db' arg = evalCreateSession now db arg
    simp only [evalCreateSession, h.sessions, h.isSome_user]
  | getSession id =>
    refine same ?_ fun _ => rfl
    change evalGetSession db' id = evalGetSession db id
    simp only [evalGetSession, h.sessions]
  | createVerifyEmail arg =>
    refine same ?_ fun _ => rfl
    change evalCreateVerifyEmail generated now db' arg = evalCreateVerifyEmail generated now db arg
    simp only [evalCreateVerifyEmail, h.isSome_user]
  | updateVerifyEmail arg =>
    refine same ?_ fun _ => rfl
    change evalUpdateVerifyEmail now db' arg = evalUpdateVerifyEmail now db arg
    simp only [evalUpdateVerifyEmail, h.verifyEmails]

theorem requests (now : Time) (stmt : Stmt) : stmt.requests now db' = stmt.requests now db := by
  have hshare : ∀ k, Stmt.keyShare db' k = Stmt.keyShare db k := by
    intro k
    rw [Stmt.keyShare, h.lookup_isSome, Stmt.keyShare]
  cases stmt with
  | updateUser arg =>
    simp only [Stmt.requests]
    rcases h.users.find?_cases arg.username with ⟨hleft, hright⟩ | ⟨user, other, hleft, hright, huser⟩
    · rw [hleft, hright]
    · obtain ⟨_, rfl, -⟩ := huser
      rw [hleft, hright]
      rfl
  | _ => simp only [Stmt.requests, hshare, h.accounts, h.verifyEmails]

theorem locks (generated : Int) (now : Time) (stmt : Stmt) :
    stmt.locks generated now db' = stmt.locks generated now db := by
  rw [Stmt.locks, h.requests, Stmt.locks]

theorem freshSerial (generated : Int) (stmt : Stmt) :
    stmt.freshSerial generated db' = stmt.freshSerial generated db := by
  simp only [Stmt.freshSerial, ← Option.not_isSome, h.lookup_isSome]

end SameButHashes

theorem effect_same {stmt : Stmt} {outcome outcome' : Except Err stmt.Result}
    (h : Outcomes (SameResults deps stmt) outcome outcome') :
    List.Forall₂ (SameRow deps) (stmt.effect outcome) (stmt.effect outcome') := by
  cases outcome with
  | error err =>
    cases outcome' with
    | error err' => exact .nil
    | ok row' => exact h.elim
  | ok row =>
  cases outcome' with
  | error err' => exact h.elim
  | ok row' =>
  cases stmt with
  | createUser _ | updateUser _ => exact .cons h .nil
  | getUser _ | getAccount _ | listAccounts _ | getSession _ => exact .nil
  | _ =>
    cases h
    exact .cons rfl .nil

end Statements

structure SameCalls (deps : Deps) (call other : Execution) : Prop where
  rows : List.Forall₂ (SameRow deps) call.rows other.rows
  locks : other.locks = call.locks

structure SameTxs (deps : Deps) (tx other : Tx Execution Time) : Prop where
  owner : other.owner = tx.owner
  startedAt : other.startedAt = tx.startedAt
  aborted : other.aborted = tx.aborted
  calls : List.Forall₂ (SameCalls deps) tx.calls other.calls

structure SameWorlds (deps : Deps) (w w' : World) : Prop where
  db : SameButHashes deps w.db w'.db
  txs : Table.Related (SameTxs deps) w.txs w'.txs
  clock : w'.clock = w.clock
  tasks : w'.tasks = w.tasks
  issued : w'.issued = w.issued

def SameReplies (deps : Deps) : (op : Op) → op.Reply → op.Reply → Prop
  | .sql _ stmt, reply, other => Outcomes (SameResults deps stmt) reply other
  | _, reply, other => reply = other

section Steps

variable {deps : Deps} {w w' : World} {tx tx' : Tx Execution Time} {call call' : Execution}

theorem SameTxs.extend (h : SameTxs deps tx tx') (hcall : SameCalls deps call call')
    {aborted aborted' : Bool} (haborted : aborted' = aborted) :
    SameTxs deps (tx.extend call aborted) (tx'.extend call' aborted') :=
  ⟨h.owner, h.startedAt, haborted, List.rel_append h.calls (.cons hcall .nil)⟩

theorem SameTxs.lockedBy (h : SameTxs deps tx tx') :
    Statements.lockedBy Database tx'.calls = Statements.lockedBy Database tx.calls := by
  have hcalls := h.calls
  generalize tx.calls = calls at hcalls ⊢
  generalize tx'.calls = calls' at hcalls ⊢
  induction hcalls with
  | nil => rfl
  | cons hcall _ ih =>
    simp only [Statements.lockedBy_cons]
    exact congrArg₂ (· ++ ·) hcall.locks ih

theorem SameButHashes.write {db db' : Database} (h : SameButHashes deps db db') {rows rows' : List Row}
    (hrows : List.Forall₂ (SameRow deps) rows rows') :
    SameButHashes deps (Store.write db rows) (Store.write db' rows') := by
  induction hrows generalizing db db' with
  | nil => exact h
  | cons hrow _ ih => exact ih (h.put hrow)

/-- Replies that are the same, and worlds that are left the same. -/
def SameStep (deps : Deps) (op : Op) (result result' : op.Reply × World) : Prop :=
  SameReplies deps op result.1 result'.1 ∧ SameWorlds deps result.2 result'.2

theorem failed_same (now now' : Time) (stmt : Stmt) (err : Err) :
    SameCalls deps (.failed now stmt err) (.failed now' stmt err) :=
  ⟨.nil, rfl⟩

theorem SameButHashes.perform {db db' : Database} (h : SameButHashes deps db db') (generated : Int)
    (now : Time) (stmt : Stmt) :
    SameCalls deps (.perform generated now db stmt) (.perform generated now db' stmt) :=
  ⟨effect_same (h.eval generated now stmt), h.locks generated now stmt⟩

namespace SameWorlds

variable (h : SameWorlds deps w w')

include h

theorem now_eq : w'.now = w.now := by
  rw [World.now, h.clock, World.now]

theorem view (htx : SameTxs deps tx tx') : SameButHashes deps (w.view tx) (w'.view tx') :=
  h.db.write (List.rel_flatMap htx.calls fun _ _ hcall => hcall.rows)

theorem grants (thread : Option Nat) (locks : List (Lock Key)) :
    w'.grants thread locks = w.grants thread locks := by
  simp only [TxState.grants, List.all_eq_not_any_not]
  refine congrArg (!·) (h.txs.any_eq fun tx tx' htx => ?_).symm
  rw [htx.owner, htx.lockedBy]

theorem write {rows rows' : List Row} (hrows : List.Forall₂ (SameRow deps) rows rows') :
    SameWorlds deps { w with db := Store.write w.db rows } { w' with db := Store.write w'.db rows' } :=
  { h with db := h.db.write hrows }

theorem closeTx (thread : Nat) : SameWorlds deps (w.closeTx thread) (w'.closeTx thread) :=
  { h with txs := h.txs.erase thread }

theorem extendTx (htx : SameTxs deps tx tx') (hcall : SameCalls deps call call')
    (haborts : aborts call'.outcome = aborts call.outcome) :
    SameWorlds deps (w.extendTx tx call) (w'.extendTx tx' call') :=
  { h with txs := h.txs.put (htx.extend hcall haborts) htx.owner.symm }

theorem poolStep (choice : Choice) (stmt : Stmt) :
    Option.Rel (SameStep deps (.sql .pool stmt)) (w.poolStep choice stmt)
      (w'.poolStep choice stmt) := by
  unfold World.poolStep
  cases choice.fail with
  | some outage => exact .some ⟨rfl, h⟩
  | none =>
    have hcalls := h.db.perform choice.generated w.now stmt
    dsimp only
    rw [h.now_eq, hcalls.locks, h.grants, h.db.freshSerial]
    split
    · exact .some ⟨h.db.eval _ _ stmt, h.write hcalls.rows⟩
    · exact .none

theorem txStep (thread : Nat) (choice : Choice) (stmt : Stmt) :
    Option.Rel (SameStep deps (.sql .tx stmt)) (w.txStep thread choice stmt)
      (w'.txStep thread choice stmt) := by
  unfold World.txStep
  rcases h.txs.find?_cases thread with ⟨hleft, hright⟩ | ⟨tx, tx', hleft, hright, htx⟩
  · rw [hleft, hright]
    exact .some ⟨rfl, h⟩
  rw [hleft, hright]
  dsimp only
  rw [htx.aborted, htx.startedAt]
  split
  · exact .some ⟨rfl, h.extendTx htx (failed_same ..) rfl⟩
  cases choice.fail with
  | some outage => exact .some ⟨rfl, h.extendTx htx (failed_same ..) rfl⟩
  | none =>
    have hview := h.view htx
    have hcalls := hview.perform choice.generated tx.startedAt stmt
    have houtcomes := hview.eval choice.generated tx.startedAt stmt
    dsimp only
    rw [hcalls.locks, h.grants, hview.freshSerial]
    split
    · exact .some ⟨houtcomes, h.extendTx htx hcalls (aborts_alike houtcomes).symm⟩
    · exact .none

theorem beginStep (thread : Nat) (choice : Choice) :
    Option.Rel (SameStep deps .begin) (w.beginStep thread choice) (w'.beginStep thread choice) := by
  unfold World.beginStep
  cases choice.fail with
  | some outage => exact .some ⟨rfl, h⟩
  | none =>
    simp only [← Option.not_isSome, h.txs.isSome_eq thread, h.now_eq]
    split
    · exact .some ⟨rfl, { h with txs := h.txs.put ⟨rfl, rfl, rfl, .nil⟩ rfl }⟩
    · exact .none

theorem commitStep (thread : Nat) (choice : Choice) :
    SameStep deps .commit (w.commitStep thread choice) (w'.commitStep thread choice) := by
  unfold World.commitStep
  rcases h.txs.find?_cases thread with ⟨hleft, hright⟩ | ⟨tx, tx', hleft, hright, htx⟩
  · rw [hleft, hright]
    exact ⟨rfl, h⟩
  rw [hleft, hright]
  cases choice.fail with
  | some outage => exact ⟨rfl, h.closeTx thread⟩
  | none =>
    simp only [htx.aborted]
    split
    · exact ⟨rfl, h.closeTx thread⟩
    · exact ⟨rfl, { h with db := h.view htx, txs := h.txs.erase thread }⟩

theorem rollbackStep (thread : Nat) (choice : Choice) :
    SameStep deps .rollback (w.rollbackStep thread choice) (w'.rollbackStep thread choice) := by
  unfold World.rollbackStep
  rcases h.txs.find?_cases thread with ⟨hleft, hright⟩ | ⟨tx, tx', hleft, hright, -⟩
  · rw [hleft, hright]
    exact ⟨rfl, h⟩
  rw [hleft, hright]
  cases choice.fail with
  | some outage => exact ⟨rfl, h.closeTx thread⟩
  | none => exact ⟨rfl, h.closeTx thread⟩

/-- Every call goes the same way in both. -/
theorem step (thread : Nat) (choice : Choice) (op : Op) : Option.Rel (SameStep deps op)
    (w.step deps thread choice op) (w'.step deps thread choice op) := by
  cases op with
  | sql conn stmt =>
    cases conn with
    | pool => exact h.poolStep choice stmt
    | tx => exact h.txStep thread choice stmt
  | begin => exact h.beginStep thread choice
  | commit => exact .some (h.commitStep thread choice)
  | rollback => exact .some (h.rollbackStep thread choice)
  | randomString n =>
    simp only [World.step]
    split
    · exact .some ⟨rfl, h⟩
    · exact .none
  | generateFromPassword _ | newRandom | sendEmail _ =>
    simp only [World.step, World.callStep]
    cases choice.fail with
    | some outage => exact .some ⟨rfl, h⟩
    | none => exact .some ⟨rfl, h⟩
  | encrypt payload =>
    simp only [World.step, World.callStep]
    cases choice.fail with
    | some outage => exact .some ⟨rfl, h⟩
    | none => exact .some ⟨rfl, { h with issued := congrArg (· ++ _) h.issued }⟩
  | enqueue task =>
    simp only [World.step, World.callStep]
    cases choice.fail with
    | some outage => exact .some ⟨rfl, h⟩
    | none => exact .some ⟨rfl, { h with tasks := congrArg (· ++ [task]) h.tasks }⟩

theorem external (change : External) :
    Option.Rel (SameWorlds deps) (World.external change w) (World.external change w') := by
  cases change with
  | tick elapsed => exact .some { h with clock := congrArg (· + (elapsed : Time)) h.clock }
  | block session =>
    simp only [World.external, h.db.sessions]
    cases w.db.sessions.find? session with
    | none => exact .some h
    | some row =>
      dsimp only
      rw [h.grants]
      split
      · exact .some { h with db := h.db.put (SameRow.refl (.session { row with isBlocked := true })) }
      · exact .none

end SameWorlds
end Steps

/-- A call whose reply holds no row of `users`. -/
def Op.Userless : Op → Prop
  | .sql _ (.createUser _) | .sql _ (.getUser _) | .sql _ (.updateUser _) => False
  | _ => True

/-- The same calls, as long as the replies are the same but for such hashes. -/
abbrev SameCourse (deps : Deps) {α : Type} (ends : α → α → Prop) : Act α → Act α → Prop :=
  Lockstep (fun _ => True) (SameReplies deps) ends

section Handlers

variable {deps : Deps} {α : Type} {ends : α → α → Prop}

theorem eq_of_outcomes {outcome outcome' : Except Err α} (h : Outcomes Eq outcome outcome') :
    outcome = outcome' := by
  cases outcome with
  | error err =>
    cases outcome' with
    | error err' => exact congrArg Except.error h
    | ok value' => exact h.elim
  | ok value =>
    cases outcome' with
    | error err' => exact h.elim
    | ok value' => exact congrArg Except.ok h

theorem eq_of_userless {op : Op} (hop : op.Userless) {reply reply' : op.Reply}
    (h : SameReplies deps op reply reply') : reply = reply' := by
  cases op with
  | sql conn stmt =>
    cases stmt with
    | createUser _ | getUser _ | updateUser _ => exact hop.elim
    | _ => exact eq_of_outcomes h
  | _ => exact h

theorem userless_call {op : Op} {next next' : op.Reply → Act α} (hop : op.Userless)
    (hnext : ∀ reply, SameCourse deps ends (next reply) (next' reply)) :
    SameCourse deps ends (.call op next) (.call op next') := by
  refine .call trivial fun reply reply' hreply => ?_
  cases eq_of_userless hop hreply
  exact hnext reply

/-- A query for a user goes on with the same user, or with the same error. -/
theorem user_query {conn : Conn} {stmt : Stmt} {next next' : Except Err stmt.Result → Act α}
    (herror : ∀ err, SameCourse deps ends (next (.error err)) (next' (.error err)))
    (hok : ∀ row row', SameResults deps stmt row row' →
      SameCourse deps ends (next (.ok row)) (next' (.ok row'))) :
    SameCourse deps ends (.call (.sql conn stmt) next) (.call (.sql conn stmt) next') :=
  query_lockstep trivial (fun _ _ hreply => hreply) herror hok

theorem same_execTx {fn fn' : Act (Except Err α)} (hfn : SameCourse deps (Outcomes ends) fn fn') :
    SameCourse deps (Outcomes ends) (execTx fn) (execTx fn') := by
  refine execTx_lockstep (fun _ _ => trivial) (fun op reply reply' hop hreply => ?_) hfn
  cases op with
  | begin | commit | rollback => exact hreply
  | _ => exact hop.elim

/-- A part that ends with the same value in both. -/
theorem same_bind {β : Type} {program other : Act β} (h : SameCourse deps Eq program other)
    {f g : β → Act α} (hnext : ∀ value, SameCourse deps ends (f value) (g value)) :
    SameCourse deps ends (program >>= f) (other >>= g) := by
  refine Lockstep.bind (fun value other hvalue => ?_) h
  cases hvalue
  exact hnext value

theorem same_map {β : Type} (f : α → β) {program : Act α} (h : SameCourse deps Eq program program) :
    SameCourse deps Eq (f <$> program) (f <$> program) :=
  same_bind h (f := fun value => .done (f value)) fun _ => .done rfl

theorem hashPassword_same {password : String} :
    SameCourse deps Eq (Util.hashPassword password) (Util.hashPassword password) := by
  refine userless_call trivial fun reply => ?_
  cases reply <;> exact .done rfl

theorem createToken_same {now : Time} {username role : String} {duration : Time}
    {tokenType : Token.TokenType} :
    SameCourse deps Eq (Token.createToken now username role duration tokenType)
      (Token.createToken now username role duration tokenType) := by
  refine userless_call trivial fun reply => ?_
  cases reply with
  | error err => exact .done rfl
  | ok tokenID =>
  refine userless_call trivial fun reply => ?_
  cases reply <;> exact .done rfl

theorem addMoney_same {accountID1 accountID2 : Int} {amount1 amount2 : Int64} :
    SameCourse deps Eq (addMoney accountID1 amount1 accountID2 amount2)
      (addMoney accountID1 amount1 accountID2 amount2) := by
  refine userless_call trivial fun reply => ?_
  cases reply with
  | error err => exact .done rfl
  | ok account1 =>
  refine userless_call trivial fun reply => ?_
  cases reply <;> exact .done rfl

theorem transferTx_same {arg : TransferTxParams} :
    SameCourse deps (Outcomes Eq) (transferTx arg) (transferTx arg) := by
  refine same_execTx (userless_call trivial fun reply => ?_)
  cases reply with
  | error err => exact .done rfl
  | ok transfer =>
  refine userless_call trivial fun reply => ?_
  cases reply with
  | error err => exact .done rfl
  | ok fromEntry =>
  refine userless_call trivial fun reply => ?_
  cases reply with
  | error err => exact .done rfl
  | ok toEntry =>
  change SameCourse deps _ (if arg.fromAccountID < arg.toAccountID then _ else _)
    (if arg.fromAccountID < arg.toAccountID then _ else _)
  split
  all_goals
    refine same_bind addMoney_same fun outcome => ?_
    cases outcome <;> exact .done rfl

/-- A user is created alike, if what follows goes alike. -/
theorem createUserTx_same {arg : CreateUserTxParams} (hafter : ∀ user other, SameUser deps user other →
      SameCourse deps Eq (arg.afterCreate user) (arg.afterCreate other)) :
    SameCourse deps (Outcomes (SameUser deps)) (createUserTx arg) (createUserTx arg) := by
  refine same_execTx (user_query (fun err => .done rfl) fun user other huser => ?_)
  change SameCourse deps _ (arg.afterCreate user >>= _) (arg.afterCreate other >>= _)
  refine same_bind (hafter user other huser) fun outcome => ?_
  cases outcome with
  | error err => exact .done rfl
  | ok value => exact .done huser

theorem verifyEmailTx_same {arg : VerifyEmailTxParams} :
    SameCourse deps (Outcomes fun result result' => SameUser deps result.user result'.user)
      (verifyEmailTx arg) (verifyEmailTx arg) := by
  refine same_execTx (userless_call trivial fun reply => ?_)
  cases reply with
  | error err => exact .done rfl
  | ok verifyEmail =>
  exact user_query (fun err => .done rfl) fun user other huser => .done huser

namespace Api

theorem createUser_same {body : Body CreateUserRequest} :
    SameCourse deps Eq (createUser deps body) (createUser deps body) := by
  unfold createUser
  split
  · exact .done rfl
  refine same_bind hashPassword_same fun outcome => ?_
  cases outcome with
  | error err => exact .done rfl
  | ok hashedPassword =>
  refine user_query (fun err => .done rfl) fun user other huser => ?_
  obtain ⟨_, rfl, -⟩ := huser
  exact .done rfl

theorem loginUser_same {now : Time} {userAgent clientIP : String} {body : Body LoginUserRequest} :
    SameCourse deps Eq (loginUser deps now userAgent clientIP body)
      (loginUser deps now userAgent clientIP body) := by
  unfold loginUser
  split
  · exact .done rfl
  refine user_query (fun err => .done rfl) fun user other huser => ?_
  obtain ⟨hashedPassword, rfl, hchecks⟩ := huser
  -- what follows the check only uses columns the two rows share
  dsimp only [Program.bind]
  rw [hchecks]
  split
  · exact .done rfl
  refine same_bind createToken_same fun outcome => ?_
  cases outcome with
  | error err => exact .done rfl
  | ok access =>
  refine same_bind createToken_same fun outcome => ?_
  cases outcome with
  | error err => exact .done rfl
  | ok refresh =>
  refine userless_call trivial fun reply => ?_
  cases reply <;> exact .done rfl

theorem renewAccessToken_same {now : Time} {body : Body RenewAccessTokenRequest} :
    SameCourse deps Eq (renewAccessToken deps now body) (renewAccessToken deps now body) := by
  unfold renewAccessToken
  split
  · exact .done rfl
  split
  · exact .done rfl
  refine userless_call trivial fun reply => ?_
  cases reply with
  | error err => exact .done rfl
  | ok session =>
  dsimp only [Program.bind]
  split
  · exact .done rfl
  split
  · exact .done rfl
  split
  · exact .done rfl
  split
  · exact .done rfl
  refine same_bind createToken_same fun outcome => ?_
  cases outcome <;> exact .done rfl

theorem authRoute_same {now : Time} {authorization : String} {handler : Token.Payload → Act Reply}
    (hhandler : ∀ authPayload, SameCourse deps Eq (handler authPayload) (handler authPayload)) :
    SameCourse deps Eq (authRoute deps now authorization handler)
      (authRoute deps now authorization handler) := by
  unfold authRoute
  split
  · exact .done rfl
  · exact hhandler _

theorem createAccount_same {authPayload : Token.Payload} {body : Body CreateAccountRequest} :
    SameCourse deps Eq (createAccount authPayload body) (createAccount authPayload body) := by
  unfold createAccount
  split
  · exact .done rfl
  refine userless_call trivial fun reply => ?_
  cases reply <;> exact .done rfl

theorem getAccount_same {authPayload : Token.Payload} {uri : Body GetAccountRequest} :
    SameCourse deps Eq (getAccount authPayload uri) (getAccount authPayload uri) := by
  unfold getAccount
  split
  · exact .done rfl
  refine userless_call trivial fun reply => ?_
  cases reply with
  | error err => exact .done rfl
  | ok account =>
  dsimp only [Program.bind]
  split <;> exact .done rfl

theorem listAccounts_same {authPayload : Token.Payload} {query : Body ListAccountRequest} :
    SameCourse deps Eq (listAccounts authPayload query) (listAccounts authPayload query) := by
  unfold listAccounts
  split
  · exact .done rfl
  refine userless_call trivial fun reply => ?_
  cases reply <;> exact .done rfl

theorem validAccount_same {accountID : Int} {currency : String} :
    SameCourse deps Eq (validAccount accountID currency) (validAccount accountID currency) := by
  refine userless_call trivial fun reply => ?_
  cases reply with
  | error err => exact .done rfl
  | ok account =>
  dsimp only [Program.bind]
  split <;> exact .done rfl

theorem createTransfer_same {authPayload : Token.Payload} {body : Body TransferRequest} :
    SameCourse deps Eq (createTransfer authPayload body) (createTransfer authPayload body) := by
  unfold createTransfer
  split
  · exact .done rfl
  refine same_bind validAccount_same fun outcome => ?_
  cases outcome with
  | error reply => exact .done rfl
  | ok fromAccount =>
  dsimp only
  split
  · exact .done rfl
  refine same_bind validAccount_same fun outcome => ?_
  cases outcome with
  | error reply => exact .done rfl
  | ok toAccount =>
  refine Lockstep.bind (fun outcome outcome' hresult => ?_) transferTx_same
  cases eq_of_outcomes hresult
  cases outcome <;> exact .done rfl

end Api

namespace Gapi

theorem createUser_same {req : CreateUserRequest} :
    SameCourse deps Eq (createUser deps req) (createUser deps req) := by
  unfold createUser
  split
  · exact .done rfl
  refine same_bind hashPassword_same fun outcome => ?_
  cases outcome with
  | error err => exact .done rfl
  | ok hashedPassword =>
  refine Lockstep.bind (fun outcome outcome' huser => ?_) (createUserTx_same fun user other huser => ?_)
  · cases outcome with
    | error err =>
      cases outcome' with
      | ok other => exact huser.elim
      | error err' =>
      cases (show err = err' from huser)
      dsimp only
      split <;> exact .done rfl
    | ok user =>
      cases outcome' with
      | error err' => exact huser.elim
      | ok other =>
      obtain ⟨_, rfl, -⟩ := huser
      exact .done rfl
  · obtain ⟨_, rfl, -⟩ := huser
    refine userless_call trivial fun reply => ?_
    cases reply <;> exact .done rfl

theorem loginUser_same {now : Time} {ctx : Context} {req : LoginUserRequest} :
    SameCourse deps Eq (loginUser deps now ctx req) (loginUser deps now ctx req) := by
  unfold loginUser
  split
  · exact .done rfl
  refine user_query (fun err => ?_) fun user other huser => ?_
  · dsimp only [Program.bind]
    split <;> exact .done rfl
  obtain ⟨hashedPassword, rfl, hchecks⟩ := huser
  dsimp only [Program.bind]
  rw [hchecks]
  split
  · exact .done rfl
  refine same_bind createToken_same fun outcome => ?_
  cases outcome with
  | error err => exact .done rfl
  | ok access =>
  refine same_bind createToken_same fun outcome => ?_
  cases outcome with
  | error err => exact .done rfl
  | ok refresh =>
  refine userless_call trivial fun reply => ?_
  cases reply <;> exact .done rfl

theorem updateUserWith_same {arg : UpdateUserParams} :
    SameCourse deps Eq (updateUserWith arg) (updateUserWith arg) := by
  refine user_query (fun err => ?_) fun user other huser => ?_
  · dsimp only [Program.bind]
    split <;> exact .done rfl
  · obtain ⟨_, rfl, -⟩ := huser
    exact .done rfl

theorem updateUser_same {now : Time} {ctx : Context} {req : UpdateUserRequest} :
    SameCourse deps Eq (updateUser deps now ctx req) (updateUser deps now ctx req) := by
  unfold updateUser
  split
  · exact .done rfl
  split
  · exact .done rfl
  split
  · exact .done rfl
  dsimp only
  split
  · exact updateUserWith_same
  refine same_bind hashPassword_same fun outcome => ?_
  cases outcome with
  | error err => exact .done rfl
  | ok hashedPassword => exact updateUserWith_same

theorem verifyEmail_same {req : VerifyEmailRequest} :
    SameCourse deps Eq (verifyEmail req) (verifyEmail req) := by
  unfold verifyEmail
  split
  · exact .done rfl
  refine Lockstep.bind (fun outcome outcome' hresult => ?_) verifyEmailTx_same
  cases outcome with
  | error err =>
    cases outcome' with
    | ok other => exact hresult.elim
    | error err' => exact .done rfl
  | ok result =>
    cases outcome' with
    | error err' => exact hresult.elim
    | ok other =>
    obtain ⟨_, huser, -⟩ := hresult
    refine .done (congrArg (fun verified => Except.ok (Message.verifyEmail verified)) ?_)
    rw [huser]

end Gapi

theorem processTaskSendVerifyEmail_same {task : Worker.Task} :
    SameCourse deps Eq (Worker.processTaskSendVerifyEmail task)
      (Worker.processTaskSendVerifyEmail task) := by
  refine user_query (fun err => .done rfl) fun user other huser => ?_
  obtain ⟨_, rfl, -⟩ := huser
  refine userless_call trivial fun secretCode => ?_
  refine userless_call trivial fun reply => ?_
  cases reply with
  | error err => exact .done rfl
  | ok verifyEmail =>
  refine userless_call trivial fun reply => ?_
  cases reply <;> exact .done rfl

/-- No request tells two such hashes apart. -/
theorem serve_same (deps : Deps) (job : Job) :
    SameCourse deps Eq (serve deps job) (serve deps job) := by
  obtain ⟨request, now⟩ := job
  cases request with
  | createUser _ => exact same_map _ Api.createUser_same
  | loginUser _ _ _ => exact same_map _ Api.loginUser_same
  | renewAccessToken _ => exact same_map _ Api.renewAccessToken_same
  | createAccount _ _ => exact same_map _ (Api.authRoute_same fun _ => Api.createAccount_same)
  | getAccount _ _ => exact same_map _ (Api.authRoute_same fun _ => Api.getAccount_same)
  | listAccounts _ _ => exact same_map _ (Api.authRoute_same fun _ => Api.listAccounts_same)
  | createTransfer _ _ => exact same_map _ (Api.authRoute_same fun _ => Api.createTransfer_same)
  | rpcCreateUser _ => exact same_map _ Gapi.createUser_same
  | rpcLoginUser _ _ => exact same_map _ Gapi.loginUser_same
  | rpcUpdateUser _ _ => exact same_map _ Gapi.updateUser_same
  | rpcVerifyEmail _ => exact same_map _ Gapi.verifyEmail_same
  | task _ => exact same_map _ processTaskSendVerifyEmail_same

end Handlers

theorem service_blind (deps : Deps) :
    (service deps).Blind (SameWorlds deps) (SameReplies deps) Eq where
  accepts job h := by
    change accepts _ job = accepts _ job
    rw [accepts, ← h.clock, ← h.tasks, accepts]
  serve := serve_same deps
  step thread choice op h := h.step thread choice op
  external change h := h.external change

/-- The responses so far, in the order in which the requests came. -/
def responses (config : ServiceConfig) : List (Option Response) :=
  config.threads.map fun thread =>
    match thread.program with
    | .done response => some response
    | .call _ _ => none

section Runs

variable {deps : Deps} {w w' : World} {db : Database} {config config' : ServiceConfig}

theorem SameTxs.refl (tx : Tx Execution Time) : SameTxs deps tx tx :=
  ⟨rfl, rfl, rfl, List.forall₂_same.mpr fun _ _ =>
    ⟨List.forall₂_same.mpr fun row _ => SameRow.refl row, rfl⟩⟩

theorem SameWorlds.of_db (h : SameButHashes deps w.db db) : SameWorlds deps w { w with db } :=
  ⟨h, Table.Related.refl SameTxs.refl w.txs, rfl, rfl, rfl⟩

theorem responses_eq (h : System.InStep (SameWorlds deps) (fun _ => True) (SameReplies deps) Eq
    config config') : responses config = responses config' := by
  have hthreads := h.threads
  unfold responses
  generalize config.threads = threads at hthreads ⊢
  generalize config'.threads = threads' at hthreads ⊢
  induction hthreads with
  | nil => rfl
  | @cons thread thread' _ _ hthread _ ih =>
    obtain ⟨job, program⟩ := thread
    obtain ⟨job', program'⟩ := thread'
    refine congrArg₂ List.cons ?_ ih
    cases hthread.2 with
    | done hends => exact congrArg some hends
    | call _ _ => rfl

/-- Whatever is requested and whatever the environment does, the responses are
the same, and no request waits for one hash but not for the other. -/
theorem hashes_private (h : SameButHashes deps w.db db) (events : List (Event Job Choice External)) :
    ((service deps).run (.initial w) events).map responses =
      ((service deps).run (.initial { w with db }) events).map responses := by
  have hruns := (service_blind deps).run (.initial (SameWorlds.of_db h)) events
  generalize (service deps).run (.initial w) events = config at hruns ⊢
  generalize (service deps).run (.initial { w with db }) events = config' at hruns ⊢
  cases hruns with
  | none => rfl
  | some hinStep => exact congrArg some (responses_eq hinStep)

end Runs

namespace Sample

/-- A hash is a salt of one letter and the password. -/
def salted : Deps :=
  { deps with compareHashAndPassword := fun hashedPassword password =>
      if hashedPassword.toList.tail = password.toList then .ok () else .error (.text "mismatch") }

/-- Alice's row with another hash. -/
def aliceHashed (hashedPassword : String) : Row := .user { user "alice" with hashedPassword }

theorem salted_sameButHashes : SameButHashes salted (world.db.put (aliceHashed "asecret"))
    (world.db.put (aliceHashed "bsecret")) := by
  have hrefl : SameButHashes salted world.db world.db :=
    ⟨Table.Related.refl SameUser.refl _, rfl, rfl, rfl, rfl, rfl⟩
  exact hrefl.put ⟨"bsecret", rfl, fun _ => rfl⟩

/-- Alice logs in, and Bob mistypes his password. -/
def loggingIn : List (Event Job Choice External) :=
  [.arrive ⟨.rpcLoginUser ⟨none, none⟩ ⟨"alice", "secret"⟩, 0⟩,
    .run 0 {}, .run 0 {}, .run 0 {}, .run 0 { uuid := 1 }, .run 0 {}, .run 0 {},
    .arrive ⟨.rpcLoginUser ⟨none, none⟩ ⟨"bob", "secret"⟩, 0⟩, .run 1 {}]

end Sample

theorem hashes_private_sample :
    ((service Sample.salted).run
        (.initial { Sample.world with db := Sample.world.db.put (Sample.aliceHashed "asecret") })
        Sample.loggingIn).map responses =
      ((service Sample.salted).run
        (.initial { Sample.world with db := Sample.world.db.put (Sample.aliceHashed "bsecret") })
        Sample.loggingIn).map responses :=
  hashes_private Sample.salted_sameButHashes Sample.loggingIn

end SimpleBank
