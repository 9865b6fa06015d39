import SimpleBank.Ledgers
import SimpleBank.Settlement

/-! What a user learns about the balances of other people's accounts. -/
namespace SimpleBank
open Library Db Program

/-- A transfer without the ids of its rows. -/
def Db.TransferTxResult.withoutIds (result : TransferTxResult) : TransferTxResult :=
  { result with
    transfer := result.transfer.withId 0
    fromEntry := result.fromEntry.withId 0
    toEntry := result.toEntry.withId 0 }

/-- And without the balance of the recipient. -/
def Db.TransferTxResult.masked (username : String) (result : TransferTxResult) : TransferTxResult :=
  { result.withoutIds with toAccount := result.toAccount.masked username }

/-- A response with another account of the transfer it reports. -/
def Response.mapTransfer (f : TransferTxResult → TransferTxResult) : Response → Response
  | .http ⟨status, .transfer result⟩ => .http ⟨status, .transfer (f result)⟩
  | response => response

/-- The four endpoints for accounts and transfers. -/
def Request.OnAccounts : Request → Prop
  | .createAccount _ _ | .getAccount _ _ | .listAccounts _ _ | .createTransfer _ _ => True
  | _ => False

/-- A request of `username` for accounts or transfers, a call of one, or some time passing. -/
def ByUser (deps : Deps) (username : String) : Event Job Choice External → Prop
  | .arrive job => job.request.OnAccounts ∧
      ∃ payload, job.bearer deps = some payload ∧ payload.username = username
  | .run _ _ | .external (.tick _) => True
  | .external (.block _) => False

/-- The same requests of one user, made to two worlds at the same times. -/
def SameSession (deps : Deps) (username : String) (config : ServiceConfig)
    (event event' : Event Job Choice External) : Prop :=
  ByUser deps username event ∧ System.SameEvent SameChoice config event event'

section Lockstep

variable {owner : Int → String} {username : String}

/-- Two replies that leave out the ids of rows and the balance of the recipient. -/
def AlikeHttp (username : String) (reply other : Api.Reply) : Prop :=
  (Response.http reply).mapTransfer (TransferTxResult.masked username) =
    (Response.http other).mapTransfer (TransferTxResult.masked username)

theorem alikeHttp_fail {status : Nat} {err : Err} :
    Lockstep (May username) (AlikeReplies owner username) (AlikeHttp username)
      (Api.fail status err) (Api.fail status err) :=
  .done rfl

/-- A statement that may be run goes on with related rows, or with the same error. -/
theorem query_lockstep {may : Op → Prop} {replies : (op : Op) → op.Reply → op.Reply → Prop}
    {α : Type} {ends : α → α → Prop} {conn : Conn} {stmt : Stmt}
    {related : stmt.Result → stmt.Result → Prop} {next next' : Except Err stmt.Result → Act α}
    (hmay : may (.sql conn stmt)) (hreplies : ∀ reply reply' : Except Err stmt.Result,
      replies (.sql conn stmt) reply reply' → Outcomes related reply reply')
    (herror : ∀ err, Lockstep may replies ends (next (.error err)) (next' (.error err)))
    (hok : ∀ row row', related row row' →
      Lockstep may replies ends (next (.ok row)) (next' (.ok row'))) :
    Lockstep may replies ends (.call (.sql conn stmt) next) (.call (.sql conn stmt) next') := by
  refine .call hmay fun reply reply' hreply => ?_
  have houtcomes := hreplies reply reply' hreply
  cases reply with
  | error err =>
    cases reply' with
    | error err' =>
      cases (show err = err' from houtcomes)
      exact herror err
    | ok row' => exact houtcomes.elim
  | ok row =>
    cases reply' with
    | error err' => exact houtcomes.elim
    | ok row' => exact hok row row' houtcomes

theorem lockstep_query {α : Type} {ends : α → α → Prop} {conn : Conn} {stmt : Stmt}
    {next next' : Except Err stmt.Result → Act α} (hmay : MayRun username conn stmt)
    (herror : ∀ err, Lockstep (May username) (AlikeReplies owner username) ends
      (next (.error err)) (next' (.error err)))
    (hok : ∀ row row', AlikeResults owner username stmt row row' →
      Lockstep (May username) (AlikeReplies owner username) ends (next (.ok row)) (next' (.ok row'))) :
    Lockstep (May username) (AlikeReplies owner username) ends
      (.call (.sql conn stmt) next) (.call (.sql conn stmt) next') :=
  query_lockstep hmay (fun _ _ halike => halike) herror hok

theorem createAccount_lockstep {payload : Token.Payload} (huser : payload.username = username)
    {body : Api.Body Api.CreateAccountRequest} :
    Lockstep (May username) (AlikeReplies owner username) (AlikeHttp username)
      (Api.createAccount payload body) (Api.createAccount payload body) := by
  unfold Api.createAccount
  split
  · exact alikeHttp_fail
  · refine lockstep_query huser (fun err => alikeHttp_fail) fun row row' hrow => ?_
    cases (show row = row' from hrow)
    exact .done rfl

theorem getAccount_lockstep {payload : Token.Payload} (huser : payload.username = username)
    {uri : Api.Body Api.GetAccountRequest} :
    Lockstep (May username) (AlikeReplies owner username) (AlikeHttp username)
      (Api.getAccount payload uri) (Api.getAccount payload uri) := by
  unfold Api.getAccount
  split
  · exact alikeHttp_fail
  · refine lockstep_query trivial (fun err => alikeHttp_fail) fun row row' hrow => ?_
    obtain ⟨hrow, -⟩ := hrow
    dsimp only [Program.bind]
    rw [← hrow.owner_eq]
    split
    · exact alikeHttp_fail
    · rename_i howned
      cases hrow.eq_of_owned ((not_not.mp howned).trans huser)
      exact .done rfl

theorem listAccounts_lockstep {payload : Token.Payload} (huser : payload.username = username)
    {query : Api.Body Api.ListAccountRequest} :
    Lockstep (May username) (AlikeReplies owner username) (AlikeHttp username)
      (Api.listAccounts payload query) (Api.listAccounts payload query) := by
  unfold Api.listAccounts
  split
  · exact alikeHttp_fail
  · refine lockstep_query huser (fun err => alikeHttp_fail) fun rows rows' hrows => ?_
    cases (show rows = rows' from hrows)
    exact .done rfl

theorem validAccount_lockstep {accountID : Int} {currency : String} :
    Lockstep (May username) (AlikeReplies owner username)
      (fun outcome outcome' => (∃ reply, outcome = .error reply ∧ outcome' = .error reply) ∨
        ∃ account account', outcome = .ok account ∧ outcome' = .ok account' ∧
          AlikeAccounts owner username account account' ∧ account.id = accountID)
      (Api.validAccount accountID currency) (Api.validAccount accountID currency) := by
  refine lockstep_query trivial (fun err => .done (.inl ⟨_, rfl, rfl⟩))
    fun row row' hrow => ?_
  obtain ⟨hrow, hid⟩ := hrow
  dsimp only [Program.bind]
  rw [← hrow.currency_eq, ← hrow.id_eq]
  split
  · exact .done (.inl ⟨_, rfl, rfl⟩)
  · exact .done (.inr ⟨row, row', rfl, rfl, hrow, hid⟩)

/-- A call that starts or ends a transaction. -/
def Op.Brackets : Op → Prop
  | .begin | .commit | .rollback => True
  | _ => False

/-- A body that goes the same way in both runs goes through its transaction alike. -/
theorem execTx_lockstep {may : Op → Prop} {replies : (op : Op) → op.Reply → op.Reply → Prop}
    {α : Type} {ends : α → α → Prop} {fn fn' : Act (Except Err α)}
    (hmay : ∀ op : Op, op.Brackets → may op)
    (hsame : ∀ op reply reply', Op.Brackets op → replies op reply reply' → reply = reply')
    (hfn : Lockstep may replies (Outcomes ends) fn fn') :
    Lockstep may replies (Outcomes ends) (execTx fn) (execTx fn') := by
  have hbracket : ∀ {op : Op} {next next' : op.Reply → Act (Except Err α)}, op.Brackets →
      (∀ reply, Lockstep may replies (Outcomes ends) (next reply) (next' reply)) →
      Lockstep may replies (Outcomes ends) (.call op next) (.call op next') := by
    intro op next next' hop hnext
    refine .call (hmay op hop) fun reply reply' hreply => ?_
    cases hsame op reply reply' hop hreply
    exact hnext reply
  refine hbracket trivial fun reply => ?_
  cases reply with
  | error err => exact .done rfl
  | ok value =>
  change Lockstep _ _ _ (fn >>= _) (fn' >>= _)
  refine Lockstep.bind (fun outcome outcome' hends => ?_) hfn
  cases outcome with
  | error err =>
    cases outcome' with
    | ok result => exact hends.elim
    | error err' =>
    cases (show err = err' from hends)
    refine hbracket trivial fun reply => ?_
    cases reply <;> exact .done rfl
  | ok result =>
    cases outcome' with
    | error err' => exact hends.elim
    | ok result' =>
    refine hbracket trivial fun reply => ?_
    cases reply with
    | error err => exact .done rfl
    | ok value => exact .done hends

/-- Two accounts that are alike, with these ids. -/
def AlikePair (owner : Int → String) (username : String) (firstID secondID : Int)
    (pair pair' : Account × Account) : Prop :=
  (AlikeAccounts owner username pair.1 pair'.1 ∧ pair.1.id = firstID) ∧
    AlikeAccounts owner username pair.2 pair'.2 ∧ pair.2.id = secondID

theorem addMoney_lockstep {accountID1 accountID2 : Int} {amount1 amount2 : Int64} :
    Lockstep (May username) (AlikeReplies owner username)
      (Outcomes (AlikePair owner username accountID1 accountID2))
      (addMoney accountID1 amount1 accountID2 amount2)
      (addMoney accountID1 amount1 accountID2 amount2) := by
  refine lockstep_query trivial (fun err => .done rfl) fun account1 account1' hfirst => ?_
  refine lockstep_query trivial (fun err => .done rfl) fun account2 account2' hsecond => ?_
  exact .done ⟨hfirst, hsecond⟩

/-- What a transfer of `username` from an account of `username` reports. -/
theorem transferTx_lockstep {arg : TransferTxParams} (howned : owner arg.fromAccountID = username) :
    Lockstep (May username) (AlikeReplies owner username)
      (Outcomes fun result result' => result.masked username = result'.masked username)
      (transferTx arg) (transferTx arg) := by
  refine execTx_lockstep ?_ ?_ ?_
  · intro op hop
    cases op <;> first | exact trivial | exact hop.elim
  · intro op reply reply' hop hreply
    cases op <;> first | exact hreply | exact hop.elim
  refine lockstep_query trivial (fun err => .done rfl) fun transfer transfer' htransfer => ?_
  refine lockstep_query trivial (fun err => .done rfl) fun fromEntry fromEntry' hfromEntry => ?_
  refine lockstep_query trivial (fun err => .done rfl) fun toEntry toEntry' htoEntry => ?_
  have hmasked : ∀ {fromAccount fromAccount' toAccount toAccount' : Account},
      AlikeAccounts owner username fromAccount fromAccount' → fromAccount.id = arg.fromAccountID →
      AlikeAccounts owner username toAccount toAccount' →
      TransferTxResult.masked username ⟨transfer, fromAccount, toAccount, fromEntry, toEntry⟩ =
        TransferTxResult.masked username ⟨transfer', fromAccount', toAccount', fromEntry', toEntry'⟩ := by
    intro fromAccount fromAccount' toAccount toAccount' hfrom hid hto
    cases hfrom.eq_of_owned (hfrom.owned.trans (hid ▸ howned))
    simp only [TransferTxResult.masked, TransferTxResult.withoutIds, TransferTxResult.mk.injEq,
      true_and]
    exact ⟨htransfer, hto.masked_eq, hfromEntry, htoEntry⟩
  change Lockstep _ _ _ (if arg.fromAccountID < arg.toAccountID then _ else _)
    (if arg.fromAccountID < arg.toAccountID then _ else _)
  split
  · refine Lockstep.bind (fun outcome outcome' hpair => ?_) addMoney_lockstep
    cases outcome <;> cases outcome'
    · cases hpair
      exact .done rfl
    · exact hpair.elim
    · exact hpair.elim
    · exact .done (hmasked hpair.1.1 hpair.1.2 hpair.2.1)
  · refine Lockstep.bind (fun outcome outcome' hpair => ?_) addMoney_lockstep
    cases outcome <;> cases outcome'
    · cases hpair
      exact .done rfl
    · exact hpair.elim
    · exact hpair.elim
    · exact .done (hmasked hpair.2.1 hpair.2.2 hpair.1.1)

theorem createTransfer_lockstep {payload : Token.Payload} (huser : payload.username = username)
    {body : Api.Body Api.TransferRequest} :
    Lockstep (May username) (AlikeReplies owner username) (AlikeHttp username)
      (Api.createTransfer payload body) (Api.createTransfer payload body) := by
  unfold Api.createTransfer
  split
  · exact alikeHttp_fail
  refine Lockstep.bind ?_ validAccount_lockstep
  rintro _ _ (⟨reply, rfl, rfl⟩ | ⟨fromAccount, fromAccount', rfl, rfl, hfrom, hid⟩)
  · exact .done rfl
  dsimp only
  rw [← hfrom.owner_eq]
  split
  · exact alikeHttp_fail
  rename_i howned
  refine Lockstep.bind ?_ validAccount_lockstep
  rintro _ _ (⟨reply, rfl, rfl⟩ | ⟨toAccount, toAccount', rfl, rfl, -, -⟩)
  · exact .done rfl
  refine Lockstep.bind (fun outcome outcome' hresult => ?_)
    (transferTx_lockstep (hid ▸ hfrom.owned.symm.trans ((not_not.mp howned).trans huser)))
  cases outcome <;> cases outcome'
  · cases hresult
    exact alikeHttp_fail
  · exact hresult.elim
  · exact hresult.elim
  · exact .done (congrArg (fun result => Response.http ⟨Api.statusOK, .transfer result⟩) hresult)

theorem authRoute_lockstep {deps : Deps} {job : Job} {authorization : String}
    {handler : Token.Payload → Act Api.Reply} {payload : Token.Payload}
    (hbearer : (Api.authMiddleware deps job.now authorization).toOption = some payload)
    (hhandler : Lockstep (May username) (AlikeReplies owner username) (AlikeHttp username)
      (handler payload) (handler payload)) :
    Lockstep (May username) (AlikeReplies owner username) (fun response other =>
        response.mapTransfer (TransferTxResult.masked username) =
          other.mapTransfer (TransferTxResult.masked username))
      (Response.http <$> Api.authRoute deps job.now authorization handler)
      (Response.http <$> Api.authRoute deps job.now authorization handler) := by
  refine Lockstep.bind (f := fun reply => .done (Response.http reply)) (fun _ _ h => .done h) ?_
  unfold Api.authRoute
  cases hauth : Api.authMiddleware deps job.now authorization with
  | error err =>
    rw [hauth] at hbearer
    cases hbearer
  | ok found =>
    rw [hauth] at hbearer
    cases hbearer
    exact hhandler

theorem serve_lockstep {deps : Deps} {job : Job} (h : ByUser deps username (.arrive job)) :
    Lockstep (May username) (AlikeReplies owner username) (fun response other =>
        response.mapTransfer (TransferTxResult.masked username) =
          other.mapTransfer (TransferTxResult.masked username))
      (serve deps job) (serve deps job) := by
  obtain ⟨hroute, payload, hbearer, huser⟩ := h
  obtain ⟨request, now⟩ := job
  cases request with
  | createAccount _ _ => exact authRoute_lockstep hbearer (createAccount_lockstep huser)
  | getAccount _ _ => exact authRoute_lockstep hbearer (getAccount_lockstep huser)
  | listAccounts _ _ => exact authRoute_lockstep hbearer (listAccounts_lockstep huser)
  | createTransfer _ _ => exact authRoute_lockstep hbearer (createTransfer_lockstep huser)
  | _ => exact hroute.elim

end Lockstep

/-- The same accounts, all of whose columns agree but for the balances of other
people's. -/
structure SameLedger (username : String) (db db' : Database) : Prop where
  accounts : ∀ id, (db.accounts.find? id).map (Account.masked username) =
    (db'.accounts.find? id).map (Account.masked username)
  user : (db.users.find? username).isSome = (db'.users.find? username).isSome

/-- No balance has gone beyond what a `bigint` holds. -/
def NoOverflow (config : ServiceConfig) : Prop :=
  ∀ taken ∈ config.trace, overflows taken.exchange = false

instance : DecidablePred NoOverflow := fun config =>
  inferInstanceAs (Decidable (∀ taken ∈ config.trace, overflows taken.exchange = false))

/-- The response of a thread, once there is one. -/
def response? (config : ServiceConfig) (thread : Nat) : Option Response :=
  match config.threads[thread]? with
  | some ⟨_, .done response⟩ => some response
  | _ => none

section Runs

variable {deps : Deps} {owner : Int → String} {username : String} {w w' : World}
  {config config' next : ServiceConfig}

theorem SameLedger.alike {db db' : Database} (h : SameLedger username db db')
    (howned : ∀ account ∈ db.accounts.rows, account.owner = owner account.id) :
    AlikeDatabases owner username db db' := by
  refine ⟨fun id => ?_, h.user⟩
  have hid := h.accounts id
  cases hleft : db.accounts.find? id with
  | none =>
    cases hright : db'.accounts.find? id with
    | none => exact .none
    | some other => simp [hleft, hright] at hid
  | some row =>
    cases hright : db'.accounts.find? id with
    | none => simp [hleft, hright] at hid
    | some other =>
      simp only [hleft, hright, Option.map_some, Option.some.injEq] at hid
      exact .some ⟨hid, howned row (Table.find?_mem hleft).1⟩

/-- Accounts keep their ids and owners. -/
theorem owned_of_extends {db db' : Database} (hextends : Store.Extends db db')
    (howned : ∀ account ∈ db'.accounts.rows, account.owner = owner account.id) :
    ∀ account ∈ db.accounts.rows, account.owner = owner account.id := by
  intro account hmem
  obtain ⟨row, hrow, hkeeps⟩ :=
    hextends _ _ (Database.lookup_account.mpr (Table.find?_of_mem hmem))
  have hkeeps : (Row.account account).Keeps row := hkeeps
  cases row with
  | account row =>
    obtain ⟨hid, howner, -⟩ := hkeeps
    have hlater := howned row (Table.find?_mem (Database.lookup_account.mp hrow)).1
    rw [← howner, ← hid]
    exact hlater
  | _ => simp [Row.Keeps] at hkeeps

theorem external_alike {change : External} (hevent : ByUser deps username (.external change))
    {v v' : World} (h : AlikeWorlds owner username w w') (hleft : World.external change w = some v)
    (hright : World.external change w' = some v') : AlikeWorlds owner username v v' := by
  cases change with
  | tick elapsed =>
    cases hleft
    cases hright
    exact ⟨h.db, h.txs, by rw [h.clock]⟩
  | block session => exact hevent.elim

/-- The two runs stay in step, as long as nothing overflows. -/
theorem inStep_of_paired (owner : Int → String) (htxs : w.txs = .empty) (htxs' : w'.txs = .empty)
    (hclock : w.clock = w'.clock) (hledger : SameLedger username w.db w'.db)
    (hpaired : (service deps).Paired (SameSession deps username) (.initial w) (.initial w') config
      config') (hfits : NoOverflow config) (hfits' : NoOverflow config')
    (howned : ∀ account ∈ config.world.db.accounts.rows, account.owner = owner account.id) :
    System.InStep (AlikeWorlds owner username) (May username) (AlikeReplies owner username)
      (fun response other => response.mapTransfer (TransferTxResult.masked username) =
        other.mapTransfer (TransferTxResult.masked username)) config config' := by
  induction hpaired with
  | start =>
    refine .initial ⟨hledger.alike howned, ?_, hclock⟩
    rw [htxs, htxs']
    exact .empty
  | @move config config' next next' event event' hpaired hpairs hmove hmove' ih =>
    obtain ⟨hevent, hsame⟩ := hpairs
    have hextends := (Regular.reach htxs hpaired.left).extends_move hmove
    have hbefore := ih (fun taken hmem => hfits taken (System.mem_trace_of_move hmove hmem))
      (fun taken hmem => hfits' taken (System.mem_trace_of_move hmove' hmem))
      (owned_of_extends hextends howned)
    refine hbefore.move hsame hmove hmove' ?_ ?_ ?_
    · rintro job rfl
      exact serve_lockstep hevent
    · intro thread choice choice' op reply reply' hmay hsame hstep hstep' htrace htrace'
      have hlast := hfits ⟨thread, ⟨op, reply⟩, config.world, next.world⟩
        (htrace ▸ List.mem_append_right _ List.mem_cons_self)
      have hlast' := hfits' ⟨thread, ⟨op, reply'⟩, config'.world, next'.world⟩
        (htrace' ▸ List.mem_append_right _ List.mem_cons_self)
      exact hbefore.states.step hmay hsame hstep hstep' hlast hlast' howned
    · rintro change rfl hleft hright
      exact external_alike hevent hbefore.states hleft hright

theorem response?_eq_of_inStep {states : World → World → Prop} {may : Op → Prop}
    {replies : (op : Op) → op.Reply → op.Reply → Prop} {ends : Response → Response → Prop}
    (h : System.InStep states may replies ends config config') (thread : Nat) :
    Option.Rel ends (response? config thread) (response? config' thread) := by
  have hthread := h.getElem?_rel thread
  unfold response?
  generalize config.threads[thread]? = found at hthread ⊢
  generalize config'.threads[thread]? = found' at hthread ⊢
  cases hthread with
  | none => exact .none
  | @some running running' hrunning =>
    obtain ⟨job, program⟩ := running
    obtain ⟨job', program'⟩ := running'
    cases hrunning.2 with
    | done hends => exact .some hends
    | call _ _ => exact .none

/-- Whatever one run can do next, so can the other. -/
theorem exists_paired_move (h : System.InStep (AlikeWorlds owner username) (May username)
      (AlikeReplies owner username) (fun response other =>
        response.mapTransfer (TransferTxResult.masked username) =
          other.mapTransfer (TransferTxResult.masked username)) config config')
    {event : Event Job Choice External} (hevent : ByUser deps username event)
    (hmove : (service deps).move config event = some next) :
    ∃ event' next', SameSession deps username config event event' ∧
      (service deps).move config' event' = some next' := by
  obtain ⟨event', next', hsame, hmove'⟩ : ∃ event' next',
      System.SameEvent SameChoice config event event' ∧
        (service deps).move config' event' = some next' := by
    refine h.exists_move hmove ?_ ?_ ?_
    · rintro job rfl haccepts
      obtain ⟨request, now⟩ := job
      obtain ⟨hroute, -⟩ := hevent
      have hclock : now = config'.world.clock := by
        rw [← h.states.clock]
        simpa using (Bool.and_eq_true_iff.mp haccepts).1
      cases request with
      | createAccount _ _ | getAccount _ _ | listAccounts _ _ | createTransfer _ _ =>
        exact Bool.and_eq_true_iff.mpr ⟨decide_eq_true hclock, rfl⟩
      | _ => exact hroute.elim
    · intro thread choice op reply state hmay hstep
      have hsome : (config.world.step deps thread choice op).isSome = true :=
        Option.isSome_iff_exists.mpr ⟨_, hstep⟩
      obtain ⟨choice', hsame, hsome⟩ := h.states.exists_step hmay hsome
      obtain ⟨⟨reply', state'⟩, hstep'⟩ := Option.isSome_iff_exists.mp hsome
      exact ⟨choice', reply', state', hsame, hstep'⟩
    · rintro change state rfl hexternal
      cases change with
      | tick elapsed => exact ⟨_, rfl⟩
      | block session => exact hevent.elim
  exact ⟨event', next', ⟨hevent, hsame⟩, hmove'⟩

/-- Two ledgers that differ in the balances of other people's accounts are the
same to a user but for one field: the balance of the recipient in the response
to a transfer.  Every response is the same in both otherwise, and neither
ledger keeps a request waiting that the other does not. -/
theorem balances_private (htxs : w.txs = .empty) (htxs' : w'.txs = .empty)
    (hclock : w.clock = w'.clock) (hledger : SameLedger username w.db w'.db)
    (hpaired : (service deps).Paired (SameSession deps username) (.initial w) (.initial w') config
      config') (hfits : NoOverflow config) (hfits' : NoOverflow config') :
    (∀ thread, (response? config thread).map
        (Response.mapTransfer (TransferTxResult.masked username)) =
      (response? config' thread).map (Response.mapTransfer (TransferTxResult.masked username))) ∧
    ∀ event next, ByUser deps username event → (service deps).move config event = some next →
      ∃ event' next', SameSession deps username config event event' ∧
        (service deps).move config' event' = some next' := by
  have hinStep := inStep_of_paired
    (fun id => ((config.world.db.accounts.find? id).map Account.owner).getD "") htxs htxs' hclock
    hledger hpaired hfits hfits' fun account hmem => by
      rw [Table.find?_of_mem hmem]
      rfl
  refine ⟨fun thread => ?_, fun event next hevent hmove => exists_paired_move hinStep hevent hmove⟩
  have hthread := response?_eq_of_inStep hinStep thread
  generalize response? config thread = response at hthread ⊢
  generalize response? config' thread = other at hthread ⊢
  cases hthread with
  | none => rfl
  | some halike => exact congrArg some halike

end Runs

namespace Sample

/-- The same money for Alice, and more for Bob. -/
def richer : World := { world with db := { world.db with
  accounts := (Table.empty.put ⟨1, "alice", 100, "USD", 0⟩).put ⟨2, "bob", 200, "USD", 0⟩ } }

/-- Alice sends Bob some money. -/
def sending : List (Event Job Choice External) :=
  [.arrive transfer, .run 0 {}, .run 0 {}, .run 0 {}, .run 0 {}, .run 0 {}, .run 0 { generated := 2 },
    .run 0 {}, .run 0 {}, .run 0 {}]

theorem sending_runs : ((service deps).run (.initial funded) sending).isSome = true := by
  decide +kernel

theorem sending_runs_richer : ((service deps).run (.initial richer) sending).isSome = true := by
  decide +kernel

def sent : ServiceConfig := ((service deps).run (.initial funded) sending).get sending_runs

def sentRicher : ServiceConfig := ((service deps).run (.initial richer) sending).get sending_runs_richer

theorem sending_byUser : ∀ event ∈ sending, ByUser deps "alice" event := by
  intro event hmem
  simp only [sending, List.mem_cons, List.not_mem_nil, or_false] at hmem
  rcases hmem with rfl | rfl | rfl | rfl | rfl | rfl | rfl | rfl | rfl | rfl
  · exact ⟨trivial, _, rfl, rfl⟩
  all_goals trivial

theorem sent_paired : (service deps).Paired (SameSession deps "alice") (.initial funded)
    (.initial richer) sent sentRicher := by
  refine System.Paired.of_run .start (fun event hmem config => ⟨sending_byUser event hmem, ?_⟩)
    (Option.some_get sending_runs).symm (Option.some_get sending_runs_richer).symm
  cases event with
  | run thread choice => exact ⟨choice, rfl, fun _ op _ _ => .refl op choice⟩
  | _ => rfl

theorem funded_richer : SameLedger "alice" funded.db richer.db := by
  refine ⟨fun id => ?_, rfl⟩
  by_cases hfirst : id = 1
  · rw [hfirst]
    rfl
  · by_cases hsecond : id = 2
    · rw [hsecond]
      rfl
    · have hnone : ∀ balance, ((Table.empty.put ⟨1, "alice", 100, "USD", 0⟩).put
          ⟨2, "bob", balance, "USD", 0⟩ : Table Int Account Account.id).find? id = none := by
        intro balance
        exact (Table.find?_put_of_ne _ _
          (show id ≠ Account.id ⟨2, "bob", balance, "USD", 0⟩ from hsecond)).trans
          (Table.find?_put_of_ne _ _ (show id ≠ Account.id ⟨1, "alice", 100, "USD", 0⟩ from hfirst))
      rw [show funded.db.accounts.find? id = none from hnone 100,
        show richer.db.accounts.find? id = none from hnone 200]

/-- The balance of the recipient, if the response shows it. -/
def shownBalance : Response → Option Int64
  | .http ⟨_, .transfer result⟩ => some result.toAccount.balance
  | _ => none

theorem sent_fits : NoOverflow sent ∧ NoOverflow sentRicher := by
  decide +kernel

end Sample

/-- The response to a transfer shows the balance of the recipient. -/
theorem not_always_private : ¬∀ (deps : Deps) (username : String) (w w' : World)
    (config config' : ServiceConfig), w.txs = .empty → w'.txs = .empty → w.clock = w'.clock →
    SameLedger username w.db w'.db →
    (service deps).Paired (SameSession deps username) (.initial w) (.initial w') config config' →
    NoOverflow config → NoOverflow config' → ∀ thread,
      (response? config thread).map (Response.mapTransfer TransferTxResult.withoutIds) =
        (response? config' thread).map (Response.mapTransfer TransferTxResult.withoutIds) := by
  intro h
  have hsame := h _ _ _ _ _ _ rfl rfl (by rfl) Sample.funded_richer Sample.sent_paired
    Sample.sent_fits.1 Sample.sent_fits.2 0
  have hbalance : ((response? Sample.sent 0).map (Response.mapTransfer TransferTxResult.withoutIds)).bind
        Sample.shownBalance =
      ((response? Sample.sentRicher 0).map (Response.mapTransfer TransferTxResult.withoutIds)).bind
        Sample.shownBalance := by
    rw [hsame]
  revert hbalance
  decide +kernel

theorem balances_private_sample : (response? Sample.sent 0).map
      (Response.mapTransfer (TransferTxResult.masked "alice")) =
    (response? Sample.sentRicher 0).map (Response.mapTransfer (TransferTxResult.masked "alice")) :=
  (balances_private rfl rfl (by rfl) Sample.funded_richer Sample.sent_paired Sample.sent_fits.1
    Sample.sent_fits.2).1 0

end SimpleBank
