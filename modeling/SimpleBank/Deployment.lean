import SimpleBank.Catalog
import SimpleBank.Rollbacks
import SimpleBank.Service

/-! The database of a deployment.  A server migrates it when it starts and serves
from it then; scripts are also run by hand while no server runs. -/
namespace SimpleBank.Migration
open Library Library.Ddl
open Db (bind_eq_ok)

/-- `migration.Up()`.  The server does not start when it fails. -/
def runDBMigration (now : Nat → Int) (version : Nat) (content : Content) : Except Err State :=
  migrateUp now version latest ⟨schemaAt version, content⟩

section Versions

variable {version target : Nat} {now later : Nat → Int} {content : Content} {final : State}

/-- What can be read off the up scripts. -/
theorem ups_checked : safe [] (up 1) = true ∧
    (∀ version < latest, ∀ stmt ∈ up (version + 1), stmt.defaults = true) ∧
    ∃ table ∈ (schemaAt 1).tables, table.name = "accounts" ∧
      ∃ column ∈ table.columns, column.name = "owner" ∧ column.notNull = true := by
  decide +kernel

theorem schemaAt_wellFormed (h : version ≤ latest) : (schemaAt version).WellFormed := by
  induction version with
  | zero => exact Schema.wellFormed_empty
  | succ version ih => exact (ih (by omega)).run (schemaAt_up h)

theorem content_of_satisfies_zero (h : Satisfies (schemaAt 0) content) : content = fun _ => [] :=
  funext fun _ => h.empty_of_not_mem (List.not_mem_nil)

theorem migrateUp_step (h : version ≤ target) (state : State) :
    migrateUp now version (target + 1) state =
      migrateUp now version target state >>= fun state => run (now (target + 1)) state (up (target + 1)) :=
  if_pos h

/-- Up scripts that go through leave content that fits. -/
theorem satisfies_migrateUp (hversion : version ≤ target) (htarget : target ≤ latest)
    (hsat : Satisfies (schemaAt version) content)
    (hup : migrateUp now version target ⟨schemaAt version, content⟩ = .ok final) :
    final.schema = schemaAt target ∧ Satisfies (schemaAt target) final.content := by
  induction target generalizing final with
  | zero =>
    obtain rfl : version = 0 := by omega
    cases hup
    exact ⟨rfl, hsat⟩
  | succ target ih =>
    rcases Nat.lt_or_eq_of_le hversion with hlt | rfl
    · rw [migrateUp_step (by omega)] at hup
      obtain ⟨middle, hfirst, hrun⟩ := bind_eq_ok.mp hup
      obtain ⟨hmiddle, hrows⟩ := ih (by omega) (by omega) hfirst
      rw [← hmiddle] at hrows
      have hwell : middle.schema.WellFormed := hmiddle ▸ schemaAt_wellFormed (by omega)
      obtain ⟨hfits, -⟩ := hrows.run hwell (ups_checked.2.1 target htarget) hrun
      have hlater : middle.schema.run (up (target + 1)) = .ok (schemaAt (target + 1)) :=
        hmiddle ▸ schemaAt_up htarget
      have hschema : schemaAt (target + 1) = final.schema :=
        Except.ok.inj (hlater.symm.trans (run_adds (up_adds htarget) hrows.shaped hrun).1)
      rw [hschema]
      exact ⟨rfl, hfits⟩
    · rw [migrateUp_self] at hup
      cases hup
      exact ⟨rfl, hsat⟩

/-- The scripts before the third one put constraints on accounts that are there. -/
theorem exists_migrateUp (hversion : version ≤ target) (htarget : target ≤ latest)
    (hsat : Satisfies (schemaAt version) content) (haccounts : version = 1 → content "accounts" = []) :
    ∃ rows, migrateUp now version target ⟨schemaAt version, content⟩ = .ok ⟨schemaAt target, rows⟩ ∧
      (target = 1 → rows "accounts" = []) := by
  induction target with
  | zero =>
    obtain rfl : version = 0 := by omega
    exact ⟨content, rfl, nofun⟩
  | succ target ih =>
    rcases Nat.lt_or_eq_of_le hversion with hlt | rfl
    · obtain ⟨rows, hfirst, hnone⟩ := ih (by omega) (by omega)
      have hsafe : ∃ empty, safe empty (up (target + 1)) = true ∧
          ∀ table ∈ empty, rows table = [] := by
        rcases Nat.eq_zero_or_pos target with rfl | hpos
        · exact ⟨[], ups_checked.1, fun _ hmem => nomatch hmem⟩
        · refine ⟨_, up_safe hpos htarget, fun table hmem => ?_⟩
          split at hmem
          · rename_i htarget
            rw [List.mem_singleton.mp hmem]
            exact hnone htarget
          · cases hmem
      obtain ⟨empty, hsafe, hempty⟩ := hsafe
      obtain ⟨after, hrun⟩ : ∃ after, run (now (target + 1)) ⟨schemaAt target, rows⟩
          (up (target + 1)) = .ok ⟨schemaAt (target + 1), after⟩ :=
        run_safe hempty hsafe (schemaAt_up htarget)
      refine ⟨after, ?_, fun hone => ?_⟩
      · rw [migrateUp_step (by omega)]
        exact bind_eq_ok.mpr ⟨_, hfirst, hrun⟩
      · obtain rfl : target = 0 := by omega
        obtain rfl : version = 0 := by omega
        cases hfirst
        rw [content_of_satisfies_zero hsat] at hrun
        have hafter := run_restrict (up_adds htarget) (fun stmt _ => stmt.writes_empty _) hrun
        rw [show after = _ from hafter]
        rfl
    · exact ⟨content, migrateUp_self _ _, haccounts⟩

theorem owner_of_satisfies_one (hsat : Satisfies (schemaAt 1) content) :
    ∀ row ∈ content "accounts", ∃ value, row "owner" = some value ∧ value ≠ .null := by
  obtain ⟨table, htable, hname, column, hcolumn, howner, hnotNull⟩ := ups_checked.2.2
  intro row hrow
  obtain ⟨value, hvalue, hadmits⟩ := (Option.any_eq_true ..).mp
    (hsat.typed table htable row (hname ▸ hrow) column hcolumn)
  refine ⟨value, howner ▸ hvalue, ?_⟩
  rintro rfl
  simp [Column.admits, hnotNull] at hadmits

/-- Scripts that go through have gone through one by one. -/
theorem exists_migrateUp_prefix {middle : Nat} (hmiddle : version ≤ middle) (hle : middle ≤ target)
    {state : State} (hup : migrateUp now version target state = .ok final) :
    ∃ reached, migrateUp now version middle state = .ok reached := by
  induction target generalizing final with
  | zero =>
    obtain rfl : middle = 0 := by omega
    exact ⟨final, hup⟩
  | succ target ih =>
    rcases Nat.lt_or_eq_of_le hle with hlt | rfl
    · rw [migrateUp_step (by omega)] at hup
      obtain ⟨reached, hfirst, -⟩ := bind_eq_ok.mp hup
      exact ih (by omega) hfirst
    · exact ⟨final, hup⟩

/-- A server starts, except on a database where accounts have no users yet. -/
theorem exists_migrateUp_iff (hversion : version ≤ target) (htarget : target ≤ latest)
    (htwo : 2 ≤ target) (hsat : Satisfies (schemaAt version) content) :
    (∃ final, migrateUp now version target ⟨schemaAt version, content⟩ = .ok final) ↔
      (version = 1 → content "accounts" = []) := by
  constructor
  · rintro ⟨final, hup⟩ rfl
    obtain ⟨reached, hfirst⟩ := exists_migrateUp_prefix (Nat.le_succ 1) htwo hup
    rw [migrateUp_succ] at hfirst
    exact accounts_eq_nil_of_addUsersUp (owner_of_satisfies_one hsat) hfirst
  · intro haccounts
    obtain ⟨rows, hup, -⟩ := exists_migrateUp hversion htarget hsat haccounts
    exact ⟨_, hup⟩

end Versions

/-- The version that `schema_migrations` records, and the rows. -/
structure Deployed where
  version : Nat
  content : Content

/-- What a deployment goes through.  A server can be stopped at any point of any
run, and leaves the committed rows. -/
inductive Deployed.Step (deps : Deps) : Deployed → Deployed → Prop
  | runDBMigration {version : Nat} {content : Content} {final : State} (now : Nat → Int)
      (hup : runDBMigration now version content = .ok final) :
      Step deps ⟨version, content⟩ ⟨latest, final.content⟩
  | migrateup1 {version : Nat} {content : Content} {final : State} (now : Nat → Int)
      (hversion : version < latest)
      (hup : migrateUp now version (version + 1) ⟨schemaAt version, content⟩ = .ok final) :
      Step deps ⟨version, content⟩ ⟨version + 1, final.content⟩
  | migratedown1 {version : Nat} {content : Content} {final : State} (now : Nat → Int)
      (hdown : migrateDown now version (version + 1) ⟨schemaAt (version + 1), content⟩ = .ok final) :
      Step deps ⟨version + 1, content⟩ ⟨version, final.content⟩
  | serve {w : World} {config : Config Op Op.Reply World Job Response} (hstart : w.txs = .empty)
      (hstorable : w.db.Storable)
      (hreach : (service deps).Reach (fun _ event => Sequenced event) (.initial w) config) :
      Step deps ⟨latest, contentOf w.db⟩ ⟨latest, contentOf config.world.db⟩

/-- The rows fit the schema of the version. -/
structure Deployed.Fits (deployed : Deployed) : Prop where
  version : deployed.version ≤ latest
  satisfies : Satisfies (schemaAt deployed.version) deployed.content

def Deployed.created : Deployed := ⟨0, fun _ => []⟩

namespace Deployed

variable {deps : Deps} {deployed next : Deployed}

theorem fits_created : created.Fits := ⟨Nat.zero_le _, satisfies_empty⟩

theorem Fits.step (h : deployed.Fits) (hstep : Step deps deployed next) : next.Fits := by
  cases hstep with
  | runDBMigration now hup =>
    exact ⟨Nat.le_refl _, (satisfies_migrateUp h.version (Nat.le_refl _) h.satisfies hup).2⟩
  | migrateup1 now hversion hup =>
    exact ⟨hversion, (satisfies_migrateUp (Nat.le_succ _) hversion h.satisfies hup).2⟩
  | @migratedown1 version content final now hdown =>
    rw [migrateDown_eq h.version (Nat.le_succ _) h.satisfies.shaped] at hdown
    cases hdown
    exact ⟨Nat.le_of_succ_le h.version, satisfies_restrict h.version (Nat.le_succ _) h.satisfies⟩
  | @serve w config hstart hstorable hreach =>
    obtain ⟨db, hconsistent, hcontent⟩ := exists_database h.satisfies
    obtain rfl : db = w.db := contentOf_inj hconsistent.storable hstorable hcontent
    have hintact := Intact.reach hstart hconsistent (fun _ _ hevent => hevent) hreach
    exact ⟨Nat.le_refl _, satisfies_contentOf hintact.consistent⟩

theorem Fits.of_lifecycle (h : Relation.ReflTransGen (Step deps) created deployed) :
    deployed.Fits := by
  induction h with
  | refl => exact fits_created
  | tail _ hstep ih => exact ih.step hstep

end Deployed

/-- However a database was migrated, served and rolled back: its rows are those of
consistent tables when it is up to date, every rollback goes through, and a server
starts unless accounts were there before users. -/
theorem lifecycle_safe {deps : Deps} {deployed : Deployed}
    (h : Relation.ReflTransGen (Deployed.Step deps) .created deployed) :
    (deployed.version = latest →
      ∃! db : Db.Database, db.Consistent ∧ contentOf db = deployed.content) ∧
    (∀ (now : Nat → Int), ∀ target ≤ deployed.version,
      migrateDown now target deployed.version ⟨schemaAt deployed.version, deployed.content⟩ =
        .ok ⟨schemaAt target, deployed.content.restrict (schemaAt target)⟩) ∧
    ∀ now : Nat → Int, (∃ final, runDBMigration now deployed.version deployed.content = .ok final) ↔
      (deployed.version = 1 → deployed.content "accounts" = []) := by
  obtain ⟨version, content⟩ := deployed
  obtain ⟨hversion, hsat⟩ := Deployed.Fits.of_lifecycle h
  refine ⟨?_, fun now target htarget => migrateDown_eq hversion htarget hsat.shaped,
    fun now => exists_migrateUp_iff hversion (Nat.le_refl _) (by decide) hsat⟩
  rintro rfl
  obtain ⟨db, hconsistent, hcontent⟩ := exists_database hsat
  exact ⟨db, ⟨hconsistent, hcontent⟩, fun other hother =>
    contentOf_inj hother.1.storable hconsistent.storable (hother.2.trans hcontent.symm)⟩

theorem lifecycle_safe_sample : ∃ content,
    (latest = latest → ∃! db : Db.Database, db.Consistent ∧ contentOf db = content) ∧
    (∀ (now : Nat → Int), ∀ target ≤ latest,
      migrateDown now target latest ⟨schemaAt latest, content⟩ =
        .ok ⟨schemaAt target, content.restrict (schemaAt target)⟩) ∧
    ∀ now : Nat → Int, (∃ final, runDBMigration now latest content = .ok final) ↔
      (latest = 1 → content "accounts" = []) := by
  obtain ⟨rows, hup, -⟩ : ∃ rows, runDBMigration (fun _ => 0) 0 (fun _ => []) =
      .ok ⟨schemaAt latest, rows⟩ ∧ _ :=
    exists_migrateUp (Nat.zero_le latest) (Nat.le_refl _) satisfies_empty nofun
  have hlifecycle : Relation.ReflTransGen (Deployed.Step SimpleBank.Sample.deps) .created
      ⟨latest, rows⟩ := .single (.runDBMigration (fun _ => 0) hup)
  exact ⟨rows, lifecycle_safe hlifecycle⟩

/-! What the tables are after a rollback to some version and a start from there. -/

/-- The role and the mark of the email are set to what new columns are filled with. -/
def resetUser (target : Nat) (user : Db.User) : Db.User :=
  { user with
    isEmailVerified := if target ≤ 3 then false else user.isEmailVerified
    role := if target ≤ 4 then Util.depositorRole else user.role }

def resetUsers (target : Nat) (users : Table String Db.User Db.User.username) :
    Table String Db.User Db.User.username where
  rows := users.rows.map (resetUser target)
  nodup := by
    rw [List.map_map]
    exact users.nodup

def redeployed (target : Nat) (db : Db.Database) : Db.Database where
  users := if target ≤ 1 then .empty else resetUsers target db.users
  accounts := if target = 0 then .empty else db.accounts
  entries := if target = 0 then .empty else db.entries
  transfers := if target = 0 then .empty else db.transfers
  sessions := if target ≤ 2 then .empty else db.sessions
  verifyEmails := if target ≤ 3 then .empty else db.verifyEmails

section Redeployed

variable {target version : Nat} {now later : Nat → Int} {db : Db.Database} {final : State}

/-- The columns of a user before the last two versions, and before the last one. -/
def userColumns (target : Nat) : List String :=
  ["username", "hashed_password", "full_name", "email", "password_changed_at", "created_at"] ++
    if target ≤ 3 then [] else ["is_email_verified"]

/-- What the earlier versions have no room for. -/
theorem columns_checked : ∀ target < latest,
    (1 ≤ target → ((schemaAt target).columns? "accounts").isSome = true) ∧
    (target = 0 → ∀ table ∈ ledger, (schemaAt target).columns? table = none) ∧
    (target ≤ 1 → (schemaAt target).columns? "users" = none) ∧
    (target ≤ 2 → (schemaAt target).columns? "sessions" = none) ∧
    (target ≤ 3 → (schemaAt target).columns? "verify_emails" = none) ∧
    (2 ≤ target → (schemaAt target).columns? "users" = some (userColumns target)) := by
  decide +kernel

theorem redeployed_latest : redeployed latest db = db := by
  have husers : resetUsers 5 db.users = db.users := Table.ext (List.map_id db.users.rows)
  simp [redeployed, husers, latest]

/-- A reset is about columns that the version does not have. -/
theorem restrict_resetUser (user : Db.User) :
    Row.restrict (userColumns target) (userCodec.encode (resetUser target user)) =
      Row.restrict (userColumns target) (userCodec.encode user) := by
  refine Row.restrict_congr fun name hname => ?_
  rcases List.mem_append.mp hname with hname | hname
  · simp only [List.mem_cons, List.not_mem_nil, or_false] at hname
    rcases hname with rfl | rfl | rfl | rfl | rfl | rfl <;> rfl
  · split at hname
    · cases hname
    · rename_i hthree
      cases List.mem_singleton.mp hname
      show some (Value.boolean _) = some (Value.boolean _)
      simp only [resetUser, if_neg hthree]

/-- Down to the version, nothing is lost but what it has no room for. -/
theorem restrict_redeployed (htarget : target ≤ latest) :
    (contentOf (redeployed target db)).restrict (schemaAt target) =
      (contentOf db).restrict (schemaAt target) := by
  rcases Nat.lt_or_eq_of_le htarget with hlt | rfl
  swap
  · rw [redeployed_latest]
  obtain ⟨-, hledger, husers, hsessions, hlinks, hcolumns⟩ := columns_checked target hlt
  funext table
  show Row.restrictAll ((schemaAt target).columns? table) _ =
    Row.restrictAll ((schemaAt target).columns? table) _
  have hnone : ∀ {table : String} {rows others : List Row}, (schemaAt target).columns? table = none →
      Row.restrictAll ((schemaAt target).columns? table) rows =
        Row.restrictAll ((schemaAt target).columns? table) others := by
    intro table rows others h
    rw [h]
    rfl
  by_cases hmem : table ∈ tableNames
  · simp only [tableNames, List.mem_cons, List.not_mem_nil, or_false] at hmem
    rcases hmem with rfl | rfl | rfl | rfl | rfl | rfl
    · by_cases h : target = 0
      · exact hnone (hledger h _ (by decide))
      · simp only [contentOf, redeployed, if_neg h]
    · by_cases h : target = 0
      · exact hnone (hledger h _ (by decide))
      · simp only [contentOf, redeployed, if_neg h]
    · by_cases h : target = 0
      · exact hnone (hledger h _ (by decide))
      · simp only [contentOf, redeployed, if_neg h]
    · by_cases h : target ≤ 1
      · exact hnone (husers h)
      · rw [hcolumns (by omega)]
        simp only [contentOf, redeployed, if_neg h, resetUsers, Row.restrictAll, List.map_map]
        exact List.map_congr_left fun user _ => restrict_resetUser user
    · by_cases h : target ≤ 2
      · exact hnone (hsessions h)
      · simp only [contentOf, redeployed, if_neg h]
    · by_cases h : target ≤ 3
      · exact hnone (hlinks h)
      · simp only [contentOf, redeployed, if_neg h]
  · rw [contentOf_of_not_mem _ hmem, contentOf_of_not_mem _ hmem]

theorem users_redeployed : ∀ row ∈ contentOf (redeployed target db) "users",
    ∃ user, row = userCodec.encode (resetUser target user) := by
  intro row hrow
  obtain ⟨user, huser, rfl⟩ := List.mem_map.mp hrow
  by_cases hone : target ≤ 1
  · simp [redeployed, hone, Table.empty] at huser
  · simp only [redeployed, if_neg hone, resetUsers] at huser
    obtain ⟨old, -, rfl⟩ := List.mem_map.mp huser
    exact ⟨old, rfl⟩

/-- The up scripts fill the columns with what a redeployment leaves there. -/
theorem writes_redeployed (hversion : target ≤ version) (hlatest : version < latest) :
    ∀ stmt ∈ up (version + 1), stmt.Writes (now (version + 1)) (contentOf (redeployed target db)) := by
  have hcases : version = 0 ∨ version = 1 ∨ version = 2 ∨ version = 3 ∨ version = 4 := by
    have : version < 5 := hlatest
    omega
  rcases hcases with rfl | rfl | rfl | rfl | rfl
  · obtain rfl : target = 0 := by omega
    simp [up, initSchemaUp, Stmt.Writes, contentOf, redeployed, Table.empty]
  · simp [up, addUsersUp, Stmt.Writes, contentOf, redeployed, Table.empty, hversion]
  · simp [up, addSessionsUp, Stmt.Writes, contentOf, redeployed, Table.empty, hversion]
  · intro stmt hmem
    simp only [up, addVerifyEmailsUp, List.mem_cons, List.not_mem_nil, or_false] at hmem
    rcases hmem with rfl | rfl | rfl
    · simp [Stmt.Writes, contentOf, redeployed, Table.empty, hversion]
    · trivial
    · intro row hrow number
      obtain ⟨user, rfl⟩ := users_redeployed row hrow
      show some (Value.boolean _) = some (Value.boolean false)
      simp only [resetUser, if_pos hversion]
  · intro stmt hmem
    cases List.mem_singleton.mp hmem
    intro row hrow number
    obtain ⟨user, rfl⟩ := users_redeployed row hrow
    show some (Value.varchar _) = some (Value.varchar "depositor")
    simp only [resetUser, if_pos hversion, Util.depositorRole]

/-- Up scripts that start from what their schema has room for, of content that has
what they write. -/
theorem migrateUp_restrict (hversion : target ≤ version) (hlatest : version ≤ latest)
    (hwrites : ∀ middle, target ≤ middle → middle < version →
      ∀ stmt ∈ up (middle + 1), stmt.Writes (now (middle + 1)) content)
    (hup : migrateUp now target version ⟨schemaAt target, content.restrict (schemaAt target)⟩ =
      .ok final) :
    final = ⟨schemaAt version, content.restrict (schemaAt version)⟩ := by
  induction version generalizing final with
  | zero =>
    obtain rfl : target = 0 := by omega
    cases hup
    rfl
  | succ version ih =>
    rcases Nat.lt_or_eq_of_le hversion with hlt | rfl
    · rw [migrateUp_step (by omega)] at hup
      obtain ⟨middle, hfirst, hrun⟩ := bind_eq_ok.mp hup
      obtain rfl := ih (by omega) (by omega)
        (fun middle htarget hmiddle => hwrites middle htarget (by omega)) hfirst
      have hrows := run_restrict (up_adds hlatest) (hwrites version (by omega) (by omega)) hrun
      have hschema : schemaAt (version + 1) = final.schema :=
        Except.ok.inj ((schemaAt_up hlatest).symm.trans
          (run_adds (up_adds hlatest) (Content.restrict_restrict (.refl _)) hrun).1)
      obtain ⟨schema, rows⟩ := final
      cases hschema
      obtain rfl : rows = content.restrict (schemaAt (version + 1)) := hrows
      rfl
    · rw [migrateUp_self] at hup
      cases hup
      rfl

/-- A rollback to some version and the start after it: the roles are those of
depositors again, and what else the version has no room for is reset or gone. -/
theorem redeploy_eq_ok_iff (htarget : target ≤ latest) (hconsistent : db.Consistent) :
    (migrateDown now target latest ⟨schemaAt latest, contentOf db⟩ >>=
        migrateUp later target latest) = .ok final ↔
      (target = 1 → db.accounts.rows = []) ∧
        final = ⟨schemaAt latest, contentOf (redeployed target db)⟩ := by
  have hsat := satisfies_contentOf hconsistent
  have hstarts : (∃ final, migrateUp later target latest
      ⟨schemaAt target, (contentOf db).restrict (schemaAt target)⟩ = .ok final) ↔ _ :=
    exists_migrateUp_iff htarget (Nat.le_refl _) (by decide)
      (satisfies_restrict (Nat.le_refl _) htarget hsat)
  have haccounts : (target = 1 → (contentOf db).restrict (schemaAt target) "accounts" = []) ↔
      (target = 1 → db.accounts.rows = []) := by
    refine imp_congr_right ?_
    rintro rfl
    obtain ⟨columns, hcolumns⟩ := Option.isSome_iff_exists.mp ((columns_checked 1 (by decide)).1 (by decide))
    rw [Content.restrict, Content.restrictTo, hcolumns]
    simp [Row.restrictAll, contentOf]
  have hresult : ∀ {final}, migrateUp later target latest
      ⟨schemaAt target, (contentOf db).restrict (schemaAt target)⟩ = .ok final →
      final = ⟨schemaAt latest, contentOf (redeployed target db)⟩ := by
    intro final hup
    rw [← restrict_redeployed htarget] at hup
    rw [migrateUp_restrict htarget (Nat.le_refl _) (fun _ => writes_redeployed) hup,
      shaped_contentOf]
  rw [migrateDown_eq (Nat.le_refl _) htarget hsat.shaped]
  show migrateUp later target latest _ = .ok final ↔ _
  rw [← haccounts, ← hstarts]
  constructor
  · exact fun hup => ⟨⟨final, hup⟩, hresult hup⟩
  · rintro ⟨⟨reached, hup⟩, rfl⟩
    rwa [hresult hup] at hup

theorem redeploy_eq_ok_iff_sample :
    (migrateDown (fun _ => 0) 4 latest ⟨schemaAt latest, contentOf SimpleBank.Sample.funded.db⟩ >>=
        migrateUp (fun _ => 0) 4 latest) =
          .ok ⟨schemaAt latest, contentOf (redeployed 4 SimpleBank.Sample.funded.db)⟩ ↔
      (4 = 1 → SimpleBank.Sample.funded.db.accounts.rows = []) ∧
        (⟨schemaAt latest, contentOf (redeployed 4 SimpleBank.Sample.funded.db)⟩ : State) =
          ⟨schemaAt latest, contentOf (redeployed 4 SimpleBank.Sample.funded.db)⟩ :=
  redeploy_eq_ok_iff (by decide) SimpleBank.Sample.funded_consistent

end Redeployed
end SimpleBank.Migration
