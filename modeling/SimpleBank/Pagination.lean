import SimpleBank.Library.Ranking
import SimpleBank.Service

/-! The pages of `GET /accounts`.  The offset is computed in 32 bits. -/
namespace SimpleBank
open Library Db Program

namespace Api.ListAccountRequest

theorem check_eq_ok {req : ListAccountRequest} {value : Unit} : req.check = .ok value ↔
    1 ≤ req.pageID.toInt ∧ 5 ≤ req.pageSize.toInt ∧ req.pageSize.toInt ≤ 10 := by
  have hone : (1 : Int32).toInt = 1 := rfl
  have hfive : (5 : Int32).toInt = 5 := rfl
  have hten : (10 : Int32).toInt = 10 := rfl
  have hzero : (0 : Int32).toInt = 0 := rfl
  simp only [ListAccountRequest.check, validate_eq_ok, List.mem_cons, List.not_mem_nil, or_false,
    forall_eq_or_imp, forall_eq, checkField_eq_none, Tag.required, Bool.not_eq_true',
    decide_eq_false_iff_not, decide_eq_true_eq, Int32.le_iff_toInt_le, ← Int32.toInt_inj, hone,
    hfive, hten, hzero]
  omega

theorem inRange {req : ListAccountRequest} (h : req.check = .ok ()) :
    1 ≤ req.pageID.toInt ∧ 5 ≤ req.pageSize.toInt ∧ req.pageSize.toInt ≤ 10 :=
  check_eq_ok.mp h

/-- The offset in exact integers. -/
def exactOffset (req : ListAccountRequest) : Int := (req.pageID.toInt - 1) * req.pageSize.toInt

section Offset

variable {req : ListAccountRequest} (h : req.check = .ok ())

include h

theorem exactOffset_nonneg : 0 ≤ req.exactOffset := by
  obtain ⟨hpage, hsize, -⟩ := inRange h
  exact Int.mul_nonneg (by omega) (by omega)

theorem toInt_offset : ((req.pageID - 1) * req.pageSize).toInt = req.exactOffset.bmod (2 ^ 32) := by
  obtain ⟨hpage, -, -⟩ := inRange h
  have hlt := req.pageID.toInt_lt
  have hprevious : (req.pageID - 1).toInt = req.pageID.toInt - 1 := by
    rw [Int32.toInt_sub]
    exact Int.bmod_eq_of_le (by simp; omega) (by simp; omega)
  rw [Int32.toInt_mul, hprevious]
  rfl

end Offset
end Api.ListAccountRequest

def Db.Database.accountsOf (db : Database) (owner : String) : List Account :=
  db.accounts.rows.filter fun account => account.owner = owner

theorem Db.Database.nodup_accountsOf (db : Database) (owner : String) :
    ((db.accountsOf owner).map Account.id).Nodup :=
  db.accounts.nodup.sublist (List.filter_sublist.map _)

/-- The accounts of `owner` whose rank by id is on the page, in exact integers. -/
def ExactPage (db : Database) (owner : String) (req : Api.ListAccountRequest)
    (accounts : List Account) : Prop :=
  IsPage Account.id (db.accountsOf owner) ((req.pageID.toInt - 1) * req.pageSize.toInt).toNat
    (req.pageID.toInt * req.pageSize.toInt).toNat accounts

/-- The offset fits 32 bits, or it wraps around to one that is past the end too. -/
def OffsetFits (db : Database) (owner : String) (req : Api.ListAccountRequest) : Prop :=
  req.exactOffset < 2 ^ 31 ∨ (0 ≤ req.exactOffset.bmod (2 ^ 32) ∧
    ((db.accountsOf owner).length : Int) ≤ req.exactOffset.bmod (2 ^ 32))

section Pages

variable {db : Database} {owner : String} {req : Api.ListAccountRequest}

theorem exactPage_iff (h : req.check = .ok ()) {accounts : List Account} :
    ExactPage db owner req accounts ↔ accounts =
      (((db.accountsOf owner).insertionSort fun left right => left.id ≤ right.id).drop
        req.exactOffset.toNat).take req.pageSize.toInt.toNat := by
  obtain ⟨hpage, hsize, -⟩ := Api.ListAccountRequest.inRange h
  have hnonneg := Api.ListAccountRequest.exactOffset_nonneg h
  have hhigh : (req.pageID.toInt * req.pageSize.toInt).toNat =
      req.exactOffset.toNat + req.pageSize.toInt.toNat := by
    rw [← Int.toNat_add hnonneg (by omega), Api.ListAccountRequest.exactOffset]
    rw [Int.sub_mul, Int.one_mul, Int.sub_add_cancel]
  have hpages := isPage_insertionSort (db.nodup_accountsOf owner) req.exactOffset.toNat
    req.pageSize.toInt.toNat
  unfold ExactPage
  rw [hhigh]
  constructor
  · exact fun hexact => hexact.unique hpages
  · rintro rfl
    exact hpages

/-- The page an account is on follows from its rank, so no account is on two
pages of one size, and none is left out. -/
theorem ExactPage.mem_iff {accounts : List Account} (hexact : ExactPage db owner req accounts)
    (h : req.check = .ok ()) (account : Account) :
    account ∈ accounts ↔ account ∈ db.accountsOf owner ∧ req.pageID.toInt =
      rank Account.id (db.accountsOf owner) account / req.pageSize.toInt + 1 := by
  obtain ⟨hpage, hsize, -⟩ := Api.ListAccountRequest.inRange h
  rw [IsPage.mem_iff hexact]
  refine and_congr_right fun _ => ?_
  generalize rank Account.id (db.accountsOf owner) account = place
  have hlow : ((req.pageID.toInt - 1) * req.pageSize.toInt).toNat ≤ place ↔
      req.pageID.toInt - 1 ≤ place / req.pageSize.toInt := by
    rw [Int.le_ediv_iff_mul_le (by omega), Int.toNat_le]
  have hhigh : place < (req.pageID.toInt * req.pageSize.toInt).toNat ↔
      place / req.pageSize.toInt < req.pageID.toInt := by
    rw [Int.ediv_lt_iff_lt_mul (by omega), Int.lt_toNat]
  rw [hlow, hhigh]
  omega

theorem ExactPage.eq_nil {accounts : List Account} (hexact : ExactPage db owner req accounts)
    (h : req.check = .ok ()) (hend : ((db.accountsOf owner).length : Int) ≤ req.exactOffset) :
    accounts = [] := by
  rw [(exactPage_iff h).mp hexact, List.drop_eq_nil_of_le, List.take_nil]
  rw [List.length_insertionSort]
  omega

/-- What the query returns for the offset that the handler computes. -/
theorem evalListAccounts_exact_iff (h : req.check = .ok ()) :
    (∃ accounts, evalListAccounts db ⟨owner, req.pageSize, (req.pageID - 1) * req.pageSize⟩ =
      .ok accounts ∧ ExactPage db owner req accounts) ↔ OffsetFits db owner req := by
  obtain ⟨hpage, hsize, -⟩ := Api.ListAccountRequest.inRange h
  have hoffset := Api.ListAccountRequest.toInt_offset h
  have hnonneg := Api.ListAccountRequest.exactOffset_nonneg h
  generalize (req.pageID - 1) * req.pageSize = offset at hoffset ⊢
  have hzero : (0 : Int32).toInt = 0 := rfl
  have hlimit : ¬req.pageSize < 0 := by
    rw [Int32.lt_iff_toInt_lt, hzero]
    omega
  have hsame : req.exactOffset < 2 ^ 31 → offset.toInt = req.exactOffset := fun hlt => by
    rw [hoffset]
    exact Int.bmod_eq_of_le (by simp; omega) (by simp; omega)
  simp only [OffsetFits, evalListAccounts, hlimit, if_false, exactPage_iff h, ← hoffset,
    Int32.lt_iff_toInt_lt, hzero]
  by_cases hnegative : offset.toInt < 0
  · simp only [hnegative, if_true, reduceCtorEq, false_and, exists_const, false_iff]
    rintro (hlt | ⟨hpos, -⟩)
    · exact absurd (hsame hlt ▸ hnegative) (Int.not_lt.mpr hnonneg)
    · exact absurd hnegative (Int.not_lt.mpr hpos)
  · have hpos := Int.not_lt.mp hnegative
    simp only [hnegative, if_false, Except.ok.injEq, exists_eq_left']
    by_cases hlt : req.exactOffset < 2 ^ 31
    · exact iff_of_true (by rw [hsame hlt]; rfl) (.inl hlt)
    · have hless : offset.toInt.toNat < req.exactOffset.toNat := by
        have hbound := offset.toInt_lt
        omega
      have hordered := insertionSort_ordered (db.nodup_accountsOf owner)
      have hnodup : ((db.accountsOf owner).insertionSort fun left right =>
          left.id ≤ right.id).Nodup := hordered.imp fun hab heq => by simp [heq] at hab
      have hpositive : 0 < req.pageSize.toInt.toNat := by omega
      have hcount := take_drop_eq_iff hnodup hpositive hless
      rw [List.length_insertionSort] at hcount
      rw [or_iff_right hlt]
      refine hcount.trans ?_
      omega

end Pages

section Route

variable {deps : Deps} {w : World} {thread : Nat} {choice : Choice} {authorization : String}
  {now : Time} {payload : Token.Payload} {req : Api.ListAccountRequest}

/-- One request on its own, `w` being the world with whatever else is going on. -/
def served (deps : Deps) (thread : Nat) (choice : Choice) (job : Job) (w : World) :
    Option (Response × World) :=
  (serve deps job).runWith (World.step deps thread choice) w

theorem poolStep_listAccounts (hhealthy : choice.fail = none) (arg : ListAccountsParams) :
    w.poolStep choice (.listAccounts arg) = some (evalListAccounts w.db arg, w) := by
  have hrows : (Execution.perform choice.generated w.now w.db (.listAccounts arg)).rows = [] := by
    simp only [Execution.rows, Execution.perform, Stmt.effect]
    split <;> rfl
  have hgrants : w.grants none (Execution.perform choice.generated w.now w.db
      (.listAccounts arg)).locks = true := by
    simp [TxState.grants, blocks, Execution.perform, Stmt.locks, Stmt.requests, Stmt.serialKey]
  unfold World.poolStep
  simp only [hhealthy, hgrants, hrows]
  rfl

theorem served_listAccounts (hauth : Api.authMiddleware deps now authorization = .ok payload)
    (hreq : req.check = .ok ()) (hhealthy : choice.fail = none) :
    served deps thread choice ⟨.listAccounts authorization (.ok req), now⟩ w =
      some (.http (match evalListAccounts w.db
          ⟨payload.username, req.pageSize, (req.pageID - 1) * req.pageSize⟩ with
        | .error err => ⟨Api.statusInternalServerError, Api.errorResponse err⟩
        | .ok accounts => ⟨Api.statusOK, .accounts accounts⟩), w) := by
  have hbind : Api.bind (.ok req) Api.ListAccountRequest.check = .ok req :=
    Api.bind_eq_ok.mpr ⟨rfl, hreq⟩
  simp only [served, serve, Api.authRoute, hauth, Api.listAccounts, hbind]
  have hstep := poolStep_listAccounts (w := w) hhealthy
    ⟨payload.username, req.pageSize, (req.pageID - 1) * req.pageSize⟩
  change w.step deps thread choice (.sql .pool _) = _ at hstep
  refine (runWith_call hstep).trans ?_
  cases evalListAccounts w.db
    ⟨payload.username, req.pageSize, (req.pageID - 1) * req.pageSize⟩ with
  | error err => rfl
  | ok accounts => rfl

/-- `GET /accounts` replies with the exact page if and only if the offset fits. -/
theorem listAccounts_exact_iff (hauth : Api.authMiddleware deps now authorization = .ok payload)
    (hreq : req.check = .ok ()) (hhealthy : choice.fail = none) :
    (∃ accounts, served deps thread choice ⟨.listAccounts authorization (.ok req), now⟩ w =
        some (.http ⟨Api.statusOK, .accounts accounts⟩, w) ∧
      ExactPage w.db payload.username req accounts) ↔ OffsetFits w.db payload.username req := by
  rw [← evalListAccounts_exact_iff hreq, served_listAccounts hauth hreq hhealthy]
  refine exists_congr fun accounts => and_congr_left fun _ => ?_
  cases evalListAccounts w.db
    ⟨payload.username, req.pageSize, (req.pageID - 1) * req.pageSize⟩ with
  | error err => simp [Api.statusInternalServerError, Api.statusOK]
  | ok found => simp

end Route

/-- Far past the end, one page number gets the first page and one an error. -/
theorem wrong_page :
    served Sample.deps 0 {} ⟨.listAccounts "Bearer alice" (.ok ⟨536870913, 8⟩), 0⟩ Sample.funded =
      some (.http ⟨Api.statusOK, .accounts [⟨1, "alice", 100, "USD", 0⟩]⟩, Sample.funded) ∧
    ¬ExactPage Sample.funded.db "alice" ⟨536870913, 8⟩ [⟨1, "alice", 100, "USD", 0⟩] ∧
    served Sample.deps 0 {} ⟨.listAccounts "Bearer alice" (.ok ⟨214748366, 10⟩), 0⟩ Sample.funded =
      some (.http ⟨Api.statusInternalServerError,
        .error "ERROR: OFFSET must not be negative (SQLSTATE 2201X)"⟩, Sample.funded) := by
  refine ⟨by rfl, ?_, by rfl⟩
  rw [exactPage_iff (by decide +kernel)]
  decide +kernel

theorem alice_authorized : Api.authMiddleware Sample.deps 0 "Bearer alice" =
    .ok (Token.newPayload 0 0 "alice" Util.depositorRole (900 * second)
      Token.tokenTypeAccessToken) := by
  decide +kernel

theorem listAccounts_exact_iff_sample :
    (∃ accounts, served Sample.deps 0 {} ⟨.listAccounts "Bearer alice" (.ok ⟨1, 5⟩), 0⟩
        Sample.funded = some (.http ⟨Api.statusOK, .accounts accounts⟩, Sample.funded) ∧
      ExactPage Sample.funded.db "alice" ⟨1, 5⟩ accounts) ↔
      OffsetFits Sample.funded.db "alice" ⟨1, 5⟩ :=
  listAccounts_exact_iff alice_authorized (by decide +kernel) rfl

end SimpleBank
