import SimpleBank.Effects

/-! The money: balances and entries, the sum over a currency, and who can be
debited. -/
namespace SimpleBank
open Library Db

theorem toInt_neg_of_pos {amount : Int64} (h : 0 < amount) : (-amount).toInt = -amount.toInt := by
  have hpos : 0 < amount.toInt := Int64.lt_iff_toInt_lt.mp h
  exact toInt_neg_of_ne (by omega)

section Balances

variable {deps : Deps} {w : World} {config next : ServiceConfig}
  {ok : ServiceConfig → Event Job Choice External → Prop}

/-- The balance of each account is what its entries add up to, and what is no
account has no entries. -/
structure Reconciled (accounts : Table Int Account Account.id) (entries : Table Int Entry Entry.id) :
    Prop where
  balance : ∀ {id : Int} {account : Account}, accounts.find? id = some account →
    account.balance.toInt = entries.sum (Entry.share id)
  orphan : ∀ {id : Int}, accounts.find? id = none → entries.sum (Entry.share id) = 0

theorem Reconciled.empty : Reconciled .empty .empty :=
  ⟨fun h => (nomatch h), fun _ => rfl⟩

theorem Reconciled.account {accounts : Table Int Account Account.id}
    {entries : Table Int Entry Entry.id} (h : Reconciled accounts entries) {row : Account}
    (hfresh : accounts.find? row.id = none) (hzero : row.balance = 0) :
    Reconciled (accounts.put row) entries := by
  refine ⟨?_, ?_⟩
  · intro id account hfind
    rw [Table.find?_put] at hfind
    split at hfind
    · rename_i heq
      subst heq
      cases hfind
      rw [hzero, h.orphan hfresh]
      rfl
    · exact h.balance hfind
  · intro id hfind
    rw [Table.find?_put] at hfind
    split at hfind
    · cases hfind
    · exact h.orphan hfind

theorem change_eq_zero {arg : TransferTxParams} {id : Int} (hfrom : id ≠ arg.fromAccountID)
    (hto : id ≠ arg.toAccountID) : arg.change id = 0 := by
  rw [TransferTxParams.change, if_neg hfrom, if_neg hto, Int.add_zero]

/-- A transfer changes a balance and the entries of the account alike. -/
theorem Reconciled.transfer {db db' : Database} {arg : TransferTxParams} {result : TransferTxResult}
    (h : Reconciled db.accounts db.entries) (happlied : TransferApplied db arg result db') :
    Reconciled db'.accounts db'.entries := by
  have hcase : ∀ id, (∃ account, db.accounts.find? id = some account) ∨
      db.accounts.find? id = none := by
    intro id
    cases db.accounts.find? id with
    | none => exact .inr rfl
    | some account => exact .inl ⟨account, rfl⟩
  refine ⟨?_, ?_⟩
  · intro id account' hfind'
    rcases hcase id with ⟨account, hfind⟩ | hnone
    · obtain ⟨moved, hmoved, hbalance⟩ := happlied.find? hfind
      cases hfind'.symm.trans hmoved
      rw [hbalance.balance_eq, h.balance hfind, happlied.share]
    · cases hfind'.symm.trans (happlied.find?_none hnone)
  · intro id hnone'
    rcases hcase id with ⟨account, hfind⟩ | hnone
    · obtain ⟨moved, hmoved, -⟩ := happlied.find? hfind
      cases hnone'.symm.trans hmoved
    · obtain ⟨fromAccount, toAccount, hfrom, hto, -⟩ := happlied.holding ""
      have hzero : arg.change id = 0 :=
        change_eq_zero (by rintro rfl; cases hnone.symm.trans hfrom)
          (by rintro rfl; cases hnone.symm.trans hto)
      rw [happlied.share, h.orphan hnone, hzero]
      rfl

/-- In every run from empty books, every balance is the sum of its entries. -/
theorem balance_eq_sum_entries (htxs : w.txs = .empty) (haccounts : w.db.accounts = .empty)
    (hentries : w.db.entries = .empty) (hreach : (service deps).Reachable (.initial w) config) :
    ∀ account ∈ config.world.db.accounts.rows,
      account.balance.toInt = config.world.db.entries.sum (Entry.share account.id) := by
  have hreconciled : Reconciled config.world.db.accounts config.world.db.entries := by
    refine database_invariant (P := fun db => Reconciled db.accounts db.entries) htxs ?_
      (fun db row h => h) ?_ hreach
    · rw [haccounts, hentries]
      exact .empty
    · intro config thread job choice exchange db' _ h hchange
      cases hchange with
      | account _ row hfresh hzero _ => exact h.account hfresh hzero
      | payment payment => exact h.transfer payment.applied
      | _ => exact h
  exact fun account hmem => hreconciled.balance (Table.find?_of_mem hmem)

/-- Two accounts are opened, and one is about to pay the other. -/
def Sample.payment : List (Event Job Choice External) :=
  [.arrive ⟨.createAccount "Bearer alice" (.ok ⟨"USD"⟩), 0⟩, .run 0 {},
    .arrive ⟨.createAccount "Bearer bob" (.ok ⟨"USD"⟩), 0⟩, .run 1 { generated := 2 },
    .arrive ⟨.createTransfer "Bearer alice" (.ok ⟨1, 2, 10, "USD"⟩), 0⟩,
    .run 2 {}, .run 2 {}, .run 2 {}, .run 2 {}, .run 2 {}, .run 2 { generated := 2 }, .run 2 {},
    .run 2 {}]

theorem Sample.payment_runs :
    ((service Sample.deps).run (.initial Sample.world) Sample.payment).isSome = true := by
  decide +kernel

def Sample.paying : ServiceConfig :=
  ((service Sample.deps).run (.initial Sample.world) Sample.payment).get Sample.payment_runs

theorem Sample.paying_reachable :
    (service Sample.deps).Reachable (.initial Sample.world) Sample.paying :=
  .of_run (Option.some_get Sample.payment_runs).symm

theorem Sample.paying_commits :
    ((service Sample.deps).move Sample.paying (.run 2 {})).isSome = true := by
  decide +kernel

def Sample.paid : ServiceConfig :=
  ((service Sample.deps).move Sample.paying (.run 2 {})).get Sample.paying_commits

theorem Sample.paying_moves :
    (service Sample.deps).move Sample.paying (.run 2 {}) = some Sample.paid :=
  (Option.some_get Sample.paying_commits).symm

theorem Sample.paid_reachable :
    (service Sample.deps).Reachable (.initial Sample.world) Sample.paid :=
  .move Sample.paying_reachable trivial Sample.paying_moves

theorem balance_eq_sum_entries_sample :
    (-10 : Int64).toInt = Sample.paid.world.db.entries.sum (Entry.share 1) :=
  balance_eq_sum_entries rfl rfl rfl Sample.paid_reachable ⟨1, "alice", -10, "USD", 0⟩
    (by decide +kernel)

/-- A transfer leaves the total of each currency where it was. -/
theorem Payment.total_eq {deps : Deps} {job : Job} {db db' : Database}
    (payment : Payment deps job db db') (currency : String) :
    db'.accounts.sum (Account.holding currency) = db.accounts.sum (Account.holding currency) := by
  obtain ⟨fromAccount, toAccount, hfrom, hto, hsum⟩ := payment.applied.holding currency
  cases payment.from_eq.symm.trans hfrom
  cases payment.to_eq.symm.trans hto
  rw [hsum, payment.sameCurrency, toInt_neg_of_pos payment.positive]
  split <;> omega

/-- In every run from no accounts, each currency sums to zero. -/
theorem total_eq_zero (htxs : w.txs = .empty) (haccounts : w.db.accounts = .empty)
    (hreach : (service deps).Reachable (.initial w) config) (currency : String) :
    config.world.db.accounts.sum (Account.holding currency) = 0 := by
  refine database_invariant (P := fun db => db.accounts.sum (Account.holding currency) = 0) htxs ?_
    (fun db row h => h) ?_ hreach
  · rw [haccounts]
    rfl
  · intro config thread job choice exchange db' _ h hchange
    cases hchange with
    | account _ row hfresh hzero _ =>
      change (config.world.db.accounts.put row).sum (Account.holding currency) = 0
      rw [Table.sum_put_fresh _ hfresh, h, Account.holding, hzero]
      split <;> rfl
    | payment payment => rw [payment.total_eq, h]
    | _ => exact h

theorem total_eq_zero_sample :
    Sample.paid.world.db.accounts.sum (Account.holding "USD") = 0 :=
  total_eq_zero rfl rfl Sample.paid_reachable "USD"

/-- A step of a run that takes money from an account: its owner has requested
the transfer, and it is being committed. -/
structure Debited (deps : Deps) (config next : ServiceConfig) (event : Event Job Choice External)
    (before after : Account) : Prop where
  request : ∃ thread choice job authorization req payload,
    event = .run thread choice ∧
    Nonempty ((service deps).Takes config thread job .commit (.ok ()) next) ∧
    job.request = .createTransfer authorization (.ok req) ∧
    Api.authMiddleware deps job.now authorization = .ok payload ∧
    (∃ first accessToken rest, Util.fields authorization = first :: accessToken :: rest ∧
      Token.verifyToken deps.decrypt job.now accessToken Token.tokenTypeAccessToken =
        .ok payload) ∧
    payload.username = before.owner ∧ req.fromAccountID = before.id ∧ 0 < req.amount ∧
    after.balance.toInt = before.balance.toInt - req.amount.toInt ∧
    ∃ result, TransferApplied config.world.db ⟨req.fromAccountID, req.toAccountID, req.amount⟩
      result next.world.db

theorem Payment.debited {deps : Deps} {job : Job} {db db' : Database}
    (payment : Payment deps job db db') {id : Int} {before after : Account}
    (hbefore : db.accounts.find? id = some before) (hafter : db'.accounts.find? id = some after)
    (hless : after.balance.toInt < before.balance.toInt) :
    payment.arg.fromAccountID = id ∧ before.owner = payment.payload.username ∧
      after.balance.toInt = before.balance.toInt - payment.arg.amount.toInt := by
  obtain ⟨moved, hmoved, hbalance⟩ := payment.applied.find? hbefore
  cases hafter.symm.trans hmoved
  have hpos : 0 < payment.arg.amount.toInt := Int64.lt_iff_toInt_lt.mp payment.positive
  have hmove := hbalance.balance_eq
  rw [TransferTxParams.change, toInt_neg_of_pos payment.positive] at hmove
  -- Only the from account loses money, and only if it is not the to account too.
  by_cases hfrom : id = payment.arg.fromAccountID
  · subst hfrom
    cases hbefore.symm.trans payment.from_eq
    rw [if_pos rfl] at hmove
    split at hmove
    · omega
    · exact ⟨rfl, payment.owned, by omega⟩
  · rw [if_neg hfrom] at hmove
    split at hmove
    · omega
    · omega

/-- The transfer a request has asked for was decoded from its body, and its
bearer token was an access token. -/
theorem Job.request_of_transfer {deps : Deps} {job : Job} {arg : TransferTxParams}
    {payload : Token.Payload} (hrequested : job.transfer = some arg)
    (hbearer : job.bearer deps = some payload) :
    ∃ authorization req, job.request = .createTransfer authorization (.ok req) ∧
      arg = ⟨req.fromAccountID, req.toAccountID, req.amount⟩ ∧
      Api.authMiddleware deps job.now authorization = .ok payload := by
  unfold Job.transfer at hrequested
  split at hrequested
  · rename_i authorization req hjob
    cases hrequested
    refine ⟨authorization, req, hjob, rfl, ?_⟩
    simp only [Job.bearer, hjob] at hbearer
    cases hauth : Api.authMiddleware deps job.now authorization with
    | error err => simp [hauth, Except.toOption] at hbearer
    | ok found =>
      rw [hauth] at hbearer
      cases hbearer
      rfl
  · cases hrequested

/-- Balances other than the one of a new account only change by a payment. -/
theorem Change.debited {job : Job} {history : History} {thread : Nat}
    {exchange : Exchange Op Op.Reply} {db' : Database} {before after : Account}
    (h : Change deps job history w thread exchange db')
    (hbefore : w.db.accounts.find? before.id = some before)
    (hafter : db'.accounts.find? before.id = some after)
    (hless : after.balance.toInt < before.balance.toInt) :
    exchange = ⟨.commit, .ok ()⟩ ∧ Nonempty (Payment deps job w.db db') := by
  cases h with
  | payment payment => exact ⟨rfl, ⟨payment⟩⟩
  | account _ row hfresh _ _ =>
    have hne : before.id ≠ row.id := by
      intro heq
      rw [← heq, hbefore] at hfresh
      cases hfresh
    cases hbefore.symm.trans ((Table.find?_put_of_ne _ _ hne).symm.trans hafter)
    omega
  | _ =>
    cases hbefore.symm.trans hafter
    omega

/-- A transfer of some amount between two accounts of one supported currency. -/
def SameCurrency (accounts : Table Int Account Account.id) (row : Transfer) : Prop :=
  0 < row.amount ∧ ∃ fromAccount toAccount, accounts.find? row.fromAccountID = some fromAccount ∧
    accounts.find? row.toAccountID = some toAccount ∧
    fromAccount.currency = toAccount.currency ∧
    Util.isSupportedCurrency fromAccount.currency = true

theorem SameCurrency.mono {accounts accounts' : Table Int Account Account.id} {row : Transfer}
    (h : SameCurrency accounts row) (hkeeps : ∀ id account, accounts.find? id = some account →
      ∃ account', accounts'.find? id = some account' ∧ account'.currency = account.currency) :
    SameCurrency accounts' row := by
  obtain ⟨hpositive, fromAccount, toAccount, hfrom, hto, hsame, hsupported⟩ := h
  obtain ⟨fromAccount', hfrom', hfromCurrency⟩ := hkeeps _ _ hfrom
  obtain ⟨toAccount', hto', htoCurrency⟩ := hkeeps _ _ hto
  exact ⟨hpositive, fromAccount', toAccount', hfrom', hto', by rw [hfromCurrency, htoCurrency, hsame],
    by rw [hfromCurrency, hsupported]⟩

theorem Payment.currency {deps : Deps} {job : Job} {db db' : Database}
    (payment : Payment deps job db db') {id : Int} {account : Account}
    (hfind : db.accounts.find? id = some account) :
    ∃ account', db'.accounts.find? id = some account' ∧ account'.currency = account.currency := by
  obtain ⟨account', hfind', hmoved⟩ := payment.applied.find? hfind
  exact ⟨account', hfind', hmoved.currency_eq⟩

/-- Whatever is committed, accounts keep their currency. -/
theorem Change.currency {job : Job} {history : History} {thread : Nat}
    {exchange : Exchange Op Op.Reply} {db' : Database}
    (h : Change deps job history w thread exchange db') {id : Int} {account : Account}
    (hfind : w.db.accounts.find? id = some account) :
    ∃ account', db'.accounts.find? id = some account' ∧ account'.currency = account.currency := by
  cases h with
  | payment payment => exact payment.currency hfind
  | account _ row hfresh _ _ =>
    have hne : id ≠ row.id := by
      rintro rfl
      cases hfresh.symm.trans hfind
    exact ⟨account, (Table.find?_put_of_ne _ _ hne).trans hfind, rfl⟩
  | _ => exact ⟨account, hfind, rfl⟩

theorem Payment.sameCurrency_transfer {deps : Deps} {job : Job} {db db' : Database}
    (payment : Payment deps job db db') : SameCurrency db.accounts payment.result.transfer := by
  obtain ⟨hfrom, hto, hamount⟩ := payment.applied.transfer
  rw [SameCurrency, hfrom, hto, hamount]
  exact ⟨payment.positive, payment.fromAccount, payment.toAccount, payment.from_eq, payment.to_eq,
    payment.sameCurrency, payment.supported⟩

theorem transfers_sameCurrency (htxs : w.txs = .empty)
    (hreach : (service deps).Reach ok (.initial w) config) :
    ∀ row ∈ config.world.db.transfers.rows,
      row ∈ w.db.transfers.rows ∨ SameCurrency config.world.db.accounts row := by
  refine database_invariant (P := fun db => ∀ row ∈ db.transfers.rows,
    row ∈ w.db.transfers.rows ∨ SameCurrency db.accounts row) htxs (fun row h => .inl h)
    (fun db row h => h) ?_ hreach
  intro config thread job choice exchange db' _ h hchange
  have hold : ∀ row ∈ config.world.db.transfers.rows,
      row ∈ w.db.transfers.rows ∨ SameCurrency db'.accounts row :=
    fun row hmem => (h row hmem).imp_right fun hsame =>
      hsame.mono fun _ _ hfind => hchange.currency hfind
  cases hchange with
  | payment payment =>
    intro row hmem
    have hput : row ∈ (config.world.db.transfers.put payment.result.transfer).rows := by
      have := payment.applied.database
      rw [this] at hmem
      exact hmem
    rcases Table.mem_put hput with rfl | hmem
    · exact .inr (payment.sameCurrency_transfer.mono fun _ _ hfind => payment.currency hfind)
    · exact hold row hmem
  | _ => exact hold

/-- Money leaves an account only by a transfer its owner has requested, and all
transfers are of one supported currency. -/
theorem only_owner_debited (htxs : w.txs = .empty)
    (hreach : (service deps).Reachable (.initial w) config) :
    (∀ event next before after, (service deps).move config event = some next →
      config.world.db.accounts.find? before.id = some before →
      next.world.db.accounts.find? before.id = some after →
      after.balance.toInt < before.balance.toInt →
      Debited deps config next event before after) ∧
    ∀ row ∈ config.world.db.transfers.rows,
      row ∈ w.db.transfers.rows ∨ SameCurrency config.world.db.accounts row := by
  refine ⟨?_, transfers_sameCurrency htxs hreach⟩
  intro event next before after hmove hbefore hafter hless
  rcases System.move_cases hmove with ⟨_, rfl, -, rfl⟩ |
    ⟨thread, choice, job, op, reply, rfl, ⟨htakes⟩⟩ | ⟨change, world, rfl, hexternal, rfl⟩
  · cases hbefore.symm.trans hafter
    omega
  · obtain ⟨hcommit, ⟨payment⟩⟩ :=
      (change_of_takes htxs hreach htakes).debited hbefore hafter hless
    cases hcommit
    obtain ⟨hfrom, howner, hbalance⟩ := payment.debited hbefore hafter hless
    obtain ⟨authorization, req, hjob, harg, hauth⟩ :=
      Job.request_of_transfer payment.requested payment.bearer
    have hpositive := payment.positive
    have happlied := payment.applied
    rw [harg] at hfrom hbalance hpositive happlied
    exact ⟨thread, choice, job, authorization, req, payment.payload, rfl, ⟨htakes⟩, hjob, hauth,
      Api.authMiddleware_eq_ok hauth, howner.symm, hfrom, hpositive, hbalance, _, happlied⟩
  · obtain ⟨-, -, -, -, hdb | ⟨row, -, -, hdb⟩⟩ := World.external_spec hexternal
    · rw [show world.db = _ from hdb] at hafter
      cases hbefore.symm.trans hafter
      omega
    · rw [show world.db = _ from hdb] at hafter
      cases hbefore.symm.trans hafter
      omega

theorem only_owner_debited_sample :
    Debited Sample.deps Sample.paying Sample.paid (.run 2 {}) ⟨1, "alice", 0, "USD", 0⟩
      ⟨1, "alice", -10, "USD", 0⟩ :=
  (only_owner_debited rfl Sample.paying_reachable).1 _ _ _ _ Sample.paying_moves
    (by decide +kernel) (by decide +kernel) (by decide)

def NonNegative (db : Database) : Prop :=
  ∀ account ∈ db.accounts.rows, 0 ≤ account.balance.toInt

/-- Nothing checks the funds: a new account can be debited at once. -/
theorem not_always_nonNegative : ¬∀ (deps : Deps) (w : World) (config : ServiceConfig),
    w.txs = .empty → w.db.accounts = .empty → w.db.entries = .empty → w.db.transfers = .empty →
    (service deps).Reachable (.initial w) config → NonNegative config.world.db := by
  intro h
  have hpaid := h _ _ _ rfl rfl rfl rfl Sample.paid_reachable
  exact absurd (hpaid ⟨1, "alice", -10, "USD", 0⟩ (by decide +kernel)) (by decide)

/-- When a transfer between two accounts commits, the from account can pay for it. -/
def Funded (job : Job) (exchange : Exchange Op Op.Reply) (before : World) : Prop :=
  ∀ arg account, job.transfer = some arg → exchange = ⟨.commit, .ok ()⟩ →
    arg.fromAccountID ≠ arg.toAccountID →
    before.db.accounts.find? arg.fromAccountID = some account →
    arg.amount.toInt ≤ account.balance.toInt

theorem nonNegative_iff {db : Database} : NonNegative db ↔
    ∀ id account, db.accounts.find? id = some account → 0 ≤ account.balance.toInt :=
  ⟨fun h _ account hfind => h account (Table.find?_mem hfind).1,
    fun h account hmem => h account.id account (Table.find?_of_mem hmem)⟩

/-- A payment overdraws nobody exactly if the from account can pay for it. -/
theorem Payment.nonNegative_iff {deps : Deps} {job : Job} {db db' : Database}
    (payment : Payment deps job db db') (h : NonNegative db) :
    NonNegative db' ↔ (payment.arg.fromAccountID ≠ payment.arg.toAccountID →
      payment.arg.amount.toInt ≤ payment.fromAccount.balance.toInt) := by
  have hpos : 0 < payment.arg.amount.toInt := Int64.lt_iff_toInt_lt.mp payment.positive
  have hneg := toInt_neg_of_pos payment.positive
  constructor
  · intro h' hne
    obtain ⟨account', hfind', hmoved⟩ := payment.applied.find? payment.from_eq
    have hbalance := hmoved.balance_eq
    rw [TransferTxParams.change, if_pos rfl, if_neg hne, hneg] at hbalance
    have := SimpleBank.nonNegative_iff.mp h' _ _ hfind'
    omega
  · intro hfunded
    refine SimpleBank.nonNegative_iff.mpr fun id account' hfind' => ?_
    cases hfind : db.accounts.find? id with
    | none => cases hfind'.symm.trans (payment.applied.find?_none hfind)
    | some account =>
      obtain ⟨moved, hmovedFind, hmoved⟩ := payment.applied.find? hfind
      cases hfind'.symm.trans hmovedFind
      have hbalance := hmoved.balance_eq
      have hold := SimpleBank.nonNegative_iff.mp h _ _ hfind
      rw [TransferTxParams.change, hneg] at hbalance
      by_cases hfrom : id = payment.arg.fromAccountID
      · subst hfrom
        cases hfind.symm.trans payment.from_eq
        rw [if_pos rfl] at hbalance
        split at hbalance
        · omega
        · rename_i hne
          have := hfunded hne
          omega
      · rw [if_neg hfrom] at hbalance
        split at hbalance
        · omega
        · omega

theorem Change.nonNegative_iff {job : Job} {history : History} {thread : Nat}
    {exchange : Exchange Op Op.Reply} {db' : Database}
    (hchange : Change deps job history w thread exchange db') (h : NonNegative w.db) :
    NonNegative db' ↔ Funded job exchange w := by
  cases hchange with
  | payment payment =>
    rw [payment.nonNegative_iff h]
    constructor
    · intro hfunded arg account hrequested _ hne hfind
      cases payment.requested.symm.trans hrequested
      cases payment.from_eq.symm.trans hfind
      exact hfunded hne
    · exact fun hfunded hne => hfunded _ _ payment.requested rfl hne payment.from_eq
  | nothing hne => exact ⟨fun _ _ _ _ hcommit => absurd hcommit hne, fun _ => h⟩
  | user row hregisters _ _ =>
    refine ⟨fun _ arg _ hrequested => ?_, fun _ => h⟩
    cases hregisters.transfer_eq_none.symm.trans hrequested
  | verified arg _ _ _ hlink _ _ _ _ =>
    refine ⟨fun _ arg _ hrequested => ?_, fun _ => h⟩
    cases (Job.transfer_eq_none_of_link hlink).symm.trans hrequested
  | account _ row _ hzero _ =>
    refine ⟨fun _ _ _ _ hcommit => (nomatch hcommit), fun _ account hmem => ?_⟩
    rcases Table.mem_put hmem with rfl | hmem
    · rw [hzero]
      exact Int.le_refl _
    · exact h account hmem
  | profile _ _ _ _ | session _ _ _ | link _ _ _ _ _ =>
    exact ⟨fun _ _ _ _ hcommit => (nomatch hcommit), fun _ => h⟩

/-- In a run from no accounts, no balance is ever negative exactly if every
transfer that commits can be paid for from what is committed by then. -/
theorem nonNegative_iff_funded (htxs : w.txs = .empty) (haccounts : w.db.accounts = .empty)
    (hreach : (service deps).Reachable (.initial w) config) :
    (∀ world ∈ config.visited, NonNegative world.db) ↔
      ∀ taken ∈ config.trace, ∀ job, config.job? taken.thread = some job →
        Funded job taken.exchange taken.before := by
  have hinit : NonNegative w.db := by
    rw [NonNegative, haccounts]
    exact fun account hmem => nomatch hmem
  exact visited_iff hinit (fun _ _ => Iff.rfl)
    (fun hreach h htakes => (change_of_takes htxs hreach htakes).nonNegative_iff h) hreach

theorem nonNegative_iff_funded_sample :
    (∀ world ∈ Sample.paid.visited, NonNegative world.db) ↔
      ∀ taken ∈ Sample.paid.trace, ∀ job, Sample.paid.job? taken.thread = some job →
        Funded job taken.exchange taken.before :=
  nonNegative_iff_funded rfl rfl Sample.paid_reachable

end Balances
end SimpleBank
