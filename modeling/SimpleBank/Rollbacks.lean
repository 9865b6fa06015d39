import SimpleBank.Db.Error
import SimpleBank.Library.Rollback
import SimpleBank.Migration

/-! What the migrations do to the rows that are there when they run. -/
namespace SimpleBank.Migration
open Library.Ddl
open Db (bind_eq_ok)

section Versions

variable {version target : Nat} {now later : Nat → Int} {content : Content} {final : State}

/-- The tables of the first version. -/
def ledger : List String := ["accounts", "entries", "transfers"]

/-- What can be read off the two scripts between one version and the next. -/
theorem scripts_checked : ∀ version < latest,
    ((schemaAt version).run (up (version + 1))).isOk = true ∧
    ((schemaAt (version + 1)).run (down (version + 1))).toOption = some (schemaAt version) ∧
    (∀ stmt ∈ up (version + 1), stmt.adds = true) ∧
    (∀ stmt ∈ down (version + 1), stmt.drops = true) ∧
    (1 ≤ version → safe (if version = 1 then ["accounts"] else []) (up (version + 1)) = true ∧
      ∀ table ∈ ledger, (schemaAt (version + 1)).columns? table = (schemaAt version).columns? table) := by
  decide +kernel

theorem schemaAt_up (h : version < latest) :
    (schemaAt version).run (up (version + 1)) = .ok (schemaAt (version + 1)) := by
  obtain ⟨hok, -⟩ := scripts_checked version h
  rw [schemaAt]
  cases hrun : (schemaAt version).run (up (version + 1)) with
  | error err =>
    rw [hrun] at hok
    cases hok
  | ok schema => rfl

theorem schemaAt_down (h : version < latest) :
    (schemaAt (version + 1)).run (down (version + 1)) = .ok (schemaAt version) := by
  obtain ⟨-, hback, -⟩ := scripts_checked version h
  cases hrun : (schemaAt (version + 1)).run (down (version + 1)) with
  | error err =>
    rw [hrun] at hback
    cases hback
  | ok schema =>
    rw [hrun] at hback
    exact congrArg Except.ok (Option.some.inj hback)

theorem up_adds (h : version < latest) : ∀ stmt ∈ up (version + 1), stmt.adds = true :=
  (scripts_checked version h).2.2.1

theorem down_drops (h : version < latest) : ∀ stmt ∈ down (version + 1), stmt.drops = true :=
  (scripts_checked version h).2.2.2.1

/-- After the first version an up script only puts constraints on tables that
are new, and the second one on the accounts. -/
theorem up_safe (hlow : 1 ≤ version) (hhigh : version < latest) :
    safe (if version = 1 then ["accounts"] else []) (up (version + 1)) = true :=
  ((scripts_checked version hhigh).2.2.2.2 hlow).1

/-- From the first version on the ledger keeps its columns. -/
theorem ledger_columns (hlow : 1 ≤ version) (hhigh : version < latest) {table : String}
    (htable : table ∈ ledger) :
    (schemaAt (version + 1)).columns? table = (schemaAt version).columns? table :=
  ((scripts_checked version hhigh).2.2.2.2 hlow).2 table htable

theorem schemaAt_within (hversion : version ≤ latest) (htarget : target ≤ version) :
    (schemaAt target).Within (schemaAt version) := by
  induction version with
  | zero =>
    obtain rfl : target = 0 := by omega
    exact .refl _
  | succ version ih =>
    rcases Nat.lt_or_eq_of_le htarget with hlt | rfl
    · have hwithin := Schema.within_of_run_drops (down_drops hversion) (schemaAt_down hversion)
      exact (ih (by omega) (by omega)).trans hwithin
    · exact .refl _

/-- Every down script on the way goes through, and the schema of the earlier
version is all that is left. -/
theorem migrateDown_eq (hversion : version ≤ latest) (htarget : target ≤ version)
    (hshaped : content.restrict (schemaAt version) = content) :
    migrateDown now target version ⟨schemaAt version, content⟩ =
      .ok ⟨schemaAt target, content.restrict (schemaAt target)⟩ := by
  induction version generalizing content with
  | zero =>
    obtain rfl : target = 0 := by omega
    rw [hshaped]
    rfl
  | succ version ih =>
    rw [migrateDown]
    split
    · rename_i hle
      have hlt : version ≤ latest := by omega
      refine bind_eq_ok.mpr ⟨_, run_drops (down_drops hversion) hshaped (schemaAt_down hversion), ?_⟩
      rw [ih hlt hle (Content.restrict_restrict (.refl _)),
        Content.restrict_restrict (schemaAt_within hlt hle)]
    · obtain rfl : target = version + 1 := by omega
      rw [hshaped]

theorem satisfies_restrict (hversion : version ≤ latest) (htarget : target ≤ version)
    (hsat : Satisfies (schemaAt version) content) :
    Satisfies (schemaAt target) (content.restrict (schemaAt target)) := by
  induction version generalizing content with
  | zero =>
    obtain rfl : target = 0 := by omega
    rwa [hsat.shaped]
  | succ version ih =>
    rcases Nat.lt_or_eq_of_le htarget with hlt | rfl
    · have hle : version ≤ latest := by omega
      have hleft := ih hle (by omega) (hsat.run_drops (down_drops hversion) (schemaAt_down hversion))
      rwa [Content.restrict_restrict (schemaAt_within hle (by omega))] at hleft
    · rwa [hsat.shaped]

/-- Up scripts that go through lead to the schema of the later version, and keep
what was there. -/
theorem migrateUp_eq_ok (hversion : version ≤ latest) (htarget : target ≤ version)
    (hshaped : content.restrict (schemaAt target) = content)
    (hup : migrateUp now target version ⟨schemaAt target, content⟩ = .ok final) :
    final.schema = schemaAt version ∧ final.content.restrict (schemaAt version) = final.content ∧
      final.content.restrict (schemaAt target) = content := by
  induction version generalizing final with
  | zero =>
    obtain rfl : target = 0 := by omega
    cases hup
    exact ⟨rfl, hshaped, hshaped⟩
  | succ version ih =>
    rw [migrateUp] at hup
    split at hup
    · rename_i hle
      obtain ⟨middle, hfirst, hrun⟩ := bind_eq_ok.mp hup
      obtain ⟨hschema, hmiddle, hback⟩ := ih (by omega) hle hfirst
      have hlt : version < latest := hversion
      obtain ⟨hrunSchema, -, hsame, hfinal⟩ := run_adds (up_adds hlt) (hschema ▸ hmiddle) hrun
      rw [hschema, schemaAt_up hlt] at hrunSchema
      have hfinalSchema : final.schema = schemaAt (version + 1) := (Except.ok.inj hrunSchema).symm
      rw [hschema] at hsame
      rw [hfinalSchema] at hfinal
      refine ⟨hfinalSchema, hfinal, ?_⟩
      rw [← Content.restrict_restrict (schemaAt_within (by omega) hle), hsame]
      exact hback
    · obtain rfl : target = version + 1 := by omega
      cases hup
      exact ⟨rfl, hshaped, hshaped⟩

theorem migrateUp_self (version : Nat) (state : State) :
    migrateUp now version version state = .ok state := by
  cases version with
  | zero => rfl
  | succ version => exact if_neg (Nat.not_succ_le_self version)

theorem migrateUp_succ (version : Nat) (state : State) :
    migrateUp now version (version + 1) state = run (now (version + 1)) state (up (version + 1)) := by
  rw [migrateUp, if_pos (Nat.le_refl version), migrateUp_self]
  rfl

/-- The down scripts between two versions go through on whatever is there, keep
what the earlier version has room for, and undo the up scripts. -/
theorem rollback_safe (hlt : target < version) (hle : version ≤ latest) :
    (∀ content, Satisfies (schemaAt version) content →
      migrateDown now target version ⟨schemaAt version, content⟩ =
          .ok ⟨schemaAt target, content.restrict (schemaAt target)⟩ ∧
        Satisfies (schemaAt target) (content.restrict (schemaAt target))) ∧
    ∀ content final, Satisfies (schemaAt target) content →
      migrateUp now target version ⟨schemaAt target, content⟩ = .ok final →
      migrateDown later target version final = .ok ⟨schemaAt target, content⟩ := by
  have htarget : target ≤ version := Nat.le_of_lt hlt
  refine ⟨fun content hsat => ⟨migrateDown_eq hle htarget hsat.shaped,
    satisfies_restrict hle htarget hsat⟩, fun content final hsat hup => ?_⟩
  obtain ⟨hschema, hshaped, hback⟩ := migrateUp_eq_ok hle htarget hsat.shaped hup
  obtain ⟨schema, rows⟩ := final
  cases hschema
  exact (migrateDown_eq hle htarget hshaped).trans (by rw [hback])

end Versions

namespace Sample

def rowOf (values : List (String × Value)) : Row := fun name => values.lookup name

theorem restrict_rowOf {values : List (String × Value)} {columns : List String}
    (h : ∀ value ∈ values, value.1 ∈ columns) :
    Row.restrict columns (rowOf values) = rowOf values := by
  funext name
  unfold Row.restrict
  split
  · rfl
  · rename_i hname
    refine (List.lookup_eq_none_iff.mpr fun value hmem => ?_).symm
    refine bne_iff_ne.mpr ?_
    rintro rfl
    exact hname (h value hmem)

def alice : List (String × Value) :=
  [("username", .varchar "alice"), ("hashed_password", .varchar "secret"),
   ("full_name", .varchar "Alice"), ("email", .varchar "alice@a"),
   ("password_changed_at", .timestamptz zeroTimestamp), ("created_at", .timestamptz 0)]

def account : List (String × Value) :=
  [("id", .bigint 1), ("owner", .varchar "alice"), ("balance", .bigint 0),
   ("currency", .varchar "USD"), ("created_at", .timestamptz 0)]

/-- One user with one account. -/
def rows : Content := fun table =>
  if table = "users" then [rowOf alice] else if table = "accounts" then [rowOf account] else []

theorem restrictAll_rowOf {values : List (String × Value)} {columns? : Option (List String)}
    (h : columns?.any fun columns => values.all fun value => value.1 ∈ columns) :
    Row.restrictAll columns? [rowOf values] = [rowOf values] := by
  obtain ⟨columns, rfl, hvalues⟩ := (Option.any_eq_true ..).mp h
  simp only [Row.restrictAll, List.map_cons, List.map_nil]
  rw [restrict_rowOf (by simpa using hvalues)]

theorem rows_checked :
    ((schemaAt 2).columns? "users").any (fun columns => alice.all fun value => value.1 ∈ columns) ∧
    ((schemaAt 2).columns? "accounts").any
      (fun columns => account.all fun value => value.1 ∈ columns) ∧
    (∀ table ∈ (schemaAt 2).tables, ∀ row ∈ rows table.name, ∀ column ∈ table.columns,
      (row column.name).any column.admits = true) ∧
    ∀ constraint ∈ (schemaAt 2).constraints, constraint.Holds rows := by
  decide +kernel

theorem rows_satisfies : Satisfies (schemaAt 2) rows where
  shaped := by
    funext table
    by_cases husers : table = "users"
    · rw [husers]
      exact restrictAll_rowOf rows_checked.1
    by_cases haccounts : table = "accounts"
    · rw [haccounts]
      exact restrictAll_rowOf rows_checked.2.1
    · have hnone : rows table = [] := by rw [rows, if_neg husers, if_neg haccounts]
      rw [Content.restrict, Content.restrictTo, hnone]
      cases (schemaAt 2).columns? table <;> rfl
  typed := rows_checked.2.2.1
  constraints := rows_checked.2.2.2

end Sample

theorem rollback_safe_sample :
    (migrateDown (fun _ => 0) 1 2 ⟨schemaAt 2, Sample.rows⟩ =
        .ok ⟨schemaAt 1, Sample.rows.restrict (schemaAt 1)⟩ ∧
      Satisfies (schemaAt 1) (Sample.rows.restrict (schemaAt 1))) ∧
    ∃ final, migrateUp (fun _ => 0) 2 3 ⟨schemaAt 2, Sample.rows⟩ = .ok final ∧
      migrateDown (fun _ => 0) 2 3 final = .ok ⟨schemaAt 2, Sample.rows⟩ := by
  obtain ⟨final, hrun⟩ : ∃ final, run 0 ⟨schemaAt 2, Sample.rows⟩ (up 3) = .ok ⟨schemaAt 3, final⟩ :=
    run_safe (by simp) (up_safe (by decide) (by decide)) (schemaAt_up (by decide))
  have hup : migrateUp (fun _ => 0) 2 3 ⟨schemaAt 2, Sample.rows⟩ = .ok ⟨schemaAt 3, final⟩ :=
    (migrateUp_succ 2 _).trans hrun
  exact ⟨(@rollback_safe 2 1 (fun _ => 0) (fun _ => 0) (by decide) (by decide)).1 Sample.rows
      Sample.rows_satisfies,
    ⟨schemaAt 3, final⟩, hup, (rollback_safe (by decide) (by decide)).2 Sample.rows _
      Sample.rows_satisfies hup⟩

/-- The down script of a version and then its up script go through, lead back to
the schema of the version, and keep the rows of the ledger. -/
def Reapplies (now later : Nat → Int) (version : Nat) (content : Content) : Prop :=
  ∃ final, (migrateDown now (version - 1) version ⟨schemaAt version, content⟩ >>=
      migrateUp later (version - 1) version) = .ok ⟨schemaAt version, final⟩ ∧
    ∀ table ∈ ledger, final table = content table

section Reapplied

variable {version : Nat} {now later : Nat → Int} {content : Content} {final : State}

/-- Whenever the up script goes through again, it leads back, and the ledger is kept. -/
theorem reapplies_of_run (hlow : 1 ≤ version) (hhigh : version < latest)
    (hshaped : content.restrict (schemaAt (version + 1)) = content)
    (hrun : run (later (version + 1)) ⟨schemaAt version, content.restrict (schemaAt version)⟩
      (up (version + 1)) = .ok final) :
    Reapplies now later (version + 1) content := by
  have hdown : migrateDown now version (version + 1) ⟨schemaAt (version + 1), content⟩ = _ :=
    migrateDown_eq hhigh (Nat.le_succ version) hshaped
  obtain ⟨hschema, -, hback, hfinal⟩ :=
    run_adds (up_adds hhigh) (Content.restrict_restrict (.refl (schemaAt version))) hrun
  obtain ⟨schema, rows⟩ := final
  cases (schemaAt_up hhigh).symm.trans hschema
  refine ⟨rows, bind_eq_ok.mpr ⟨_, hdown, (migrateUp_succ version _).trans hrun⟩, ?_⟩
  intro table htable
  have hcolumns := ledger_columns hlow hhigh htable
  calc
    rows table = Row.restrictAll ((schemaAt version).columns? table) (rows table) := by
      rw [← hcolumns]
      exact (congrFun hfinal table).symm
    _ = Row.restrictAll ((schemaAt version).columns? table) (content table) := congrFun hback table
    _ = content table := by
      rw [← hcolumns]
      exact congrFun hshaped table

/-- The key that accounts have had since their owners are users. -/
def ownerKey : Constraint :=
  ⟨"accounts_owner_fkey", "accounts", ["owner"], .foreignKey "users" ["username"]⟩

/-- The second version requires the owner of an account, and adds the key. -/
theorem ownerKey_checked :
    (∃ table ∈ (schemaAt 2).tables, table.name = "accounts" ∧
      ∃ column ∈ table.columns, column.name = "owner" ∧ column.notNull = true) ∧
    ∀ created ∈ ((schemaAt 1).run (addUsersUp.take 1)).toOption, ownerKey ∉ created.constraints ∧
      ∀ keyed ∈ (created.run ((addUsersUp.drop 1).take 1)).toOption,
        ownerKey ∈ keyed.constraints := by
  decide +kernel

/-- No account has an owner when the table of users is new. -/
theorem accounts_eq_nil_of_addUsersUp {now : Int} (howner : ∀ row ∈ content "accounts", ∃ value,
      row "owner" = some value ∧ value ≠ .null)
    (hrun : run now ⟨schemaAt 1, content⟩ addUsersUp = .ok final) : content "accounts" = [] := by
  obtain ⟨created, hcreate, hrest⟩ := run_cons_eq_ok.mp hrun
  obtain ⟨keyed, hkey, -⟩ := run_cons_eq_ok.mp hrest
  obtain ⟨hcreated, hrows, -, -⟩ := exec_eq_ok.mp hcreate
  obtain ⟨hkeyed, hsame, hholds, -⟩ := exec_eq_ok.mp hkey
  obtain ⟨hbefore, hafter⟩ := ownerKey_checked.2 created.schema (by
    rw [show (schemaAt 1).run (addUsersUp.take 1) = .ok created.schema from
      Schema.run_cons_eq_ok.mpr ⟨_, hcreated, rfl⟩]
    rfl)
  have hkeys : ownerKey.Holds keyed.content := hholds ownerKey (hafter keyed.schema (by
    rw [show created.schema.run ((addUsersUp.drop 1).take 1) = .ok keyed.schema from
      Schema.run_cons_eq_ok.mpr ⟨_, hkeyed, rfl⟩]
    rfl)) hbefore
  rw [show keyed.content = Function.update content "users" [] from hsame.trans hrows] at hkeys
  cases hrow : content "accounts" with
  | nil => rfl
  | cons row rows =>
    obtain ⟨value, hvalue, hnull⟩ := howner row (hrow ▸ List.mem_cons_self)
    have hkey : [value] ∈ Content.keys (Function.update content "users" []) "accounts" ["owner"] := by
      refine List.mem_filterMap.mpr ⟨row, ?_, by simp [Row.key, hvalue, hnull, Option.filter]⟩
      rw [Function.update_of_ne (by decide), hrow]
      exact List.mem_cons_self
    have huser := hkeys _ hkey
    simp [Content.keys] at huser

/-- An account has an owner, once the schema says so. -/
theorem owner_of_satisfies (hsat : Satisfies (schemaAt 2) content) :
    ∀ row ∈ content "accounts", ∃ value, row "owner" = some value ∧ value ≠ .null := by
  obtain ⟨table, htable, hname, column, hcolumn, howner, hnotNull⟩ := ownerKey_checked.1
  intro row hrow
  have htyped := hsat.typed table htable row (hname ▸ hrow) column hcolumn
  obtain ⟨value, hvalue, hadmits⟩ := (Option.any_eq_true ..).mp htyped
  refine ⟨value, howner ▸ hvalue, fun hnull => ?_⟩
  simp [Column.admits, hnotNull, hnull] at hadmits

/-- The second version is only applied again where there is no account. -/
theorem Reapplies.accounts_eq_nil (h : Reapplies now later 2 content)
    (hsat : Satisfies (schemaAt 2) content) : content "accounts" = [] := by
  obtain ⟨rows, hruns, -⟩ := h
  obtain ⟨before, hdown, hup⟩ := bind_eq_ok.mp hruns
  cases hdown.symm.trans (migrateDown_eq (by decide) (by decide) hsat.shaped)
  have haccounts : content.restrict (schemaAt 1) "accounts" = content "accounts" := by
    have hcolumns : (schemaAt 2).columns? "accounts" = (schemaAt 1).columns? "accounts" :=
      ledger_columns (by decide) (by decide) (by decide)
    rw [Content.restrict, Content.restrictTo, ← hcolumns]
    exact congrFun hsat.shaped "accounts"
  rw [← haccounts]
  exact accounts_eq_nil_of_addUsersUp (haccounts ▸ owner_of_satisfies hsat)
    ((migrateUp_succ 1 _).symm.trans hup)

/-- A version can be rolled back and applied again, except that the second one
cannot once there is an account. -/
theorem reapplies_iff (hlow : 2 ≤ version) (hhigh : version ≤ latest)
    (hsat : Satisfies (schemaAt version) content) :
    Reapplies now later version content ↔ (version = 2 → content "accounts" = []) := by
  obtain ⟨version, rfl⟩ : ∃ before, version = before + 1 := ⟨version - 1, by omega⟩
  have hone : 1 ≤ version := by omega
  constructor
  · intro h htwo
    obtain rfl : version = 1 := by omega
    exact h.accounts_eq_nil hsat
  · intro haccounts
    have hempty : ∀ table ∈ if version = 1 then ["accounts"] else [],
        content.restrict (schemaAt version) table = [] := by
      intro table hmem
      split at hmem
      · rename_i hversion
        rw [List.mem_singleton.mp hmem, Content.restrict, Content.restrictTo,
          haccounts (by omega)]
        cases (schemaAt version).columns? "accounts" <;> rfl
      · cases hmem
    obtain ⟨final, hrun⟩ := run_safe hempty (up_safe hone hhigh) (schemaAt_up hhigh)
    exact reapplies_of_run hone hhigh hsat.shaped hrun

end Reapplied

/-- A rollback of the second version can leave the server unable to start. -/
theorem not_always_reapplies : ¬∀ (now later : Nat → Int) (version : Nat) (content : Content),
    2 ≤ version → version ≤ latest → Satisfies (schemaAt version) content →
    Reapplies now later version content := by
  intro h
  have hreapplies := h (fun _ => 0) (fun _ => 0) 2 Sample.rows (by decide) (by decide)
    Sample.rows_satisfies
  cases hreapplies.accounts_eq_nil Sample.rows_satisfies

theorem reapplies_iff_sample : Reapplies (fun _ => 0) (fun _ => 0) 2 Sample.rows ↔
    (2 = 2 → Sample.rows "accounts" = []) :=
  reapplies_iff (by decide) (by decide) Sample.rows_satisfies

end SimpleBank.Migration
