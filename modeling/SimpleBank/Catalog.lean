import SimpleBank.Integrity
import SimpleBank.Library.Records
import SimpleBank.Library.Upgrade
import SimpleBank.Migration

/-! The tables that the store works on are what the schema of the last migration
describes: the content that fits the schema is the consistent tables, and no
other, each written in one way. -/
namespace SimpleBank.Migration
open Library Library.Ddl

/-- A time in the microseconds of its column. -/
def micros (time : Db.Time) : Value := .timestamptz (time / 1000)

def bigint (id : Int) : Value := .bigint (Int64.ofInt id)

def nanos (time : Int) : Db.Time := time * 1000

theorem nanos_micros {time : Db.Time} (h : Db.IsTimestamptz time) : nanos (time / 1000) = time :=
  Int.ediv_mul_cancel h

theorem micros_nanos (time : Int) : micros (nanos time) = .timestamptz time := by
  rw [micros, nanos, Int.mul_ediv_cancel _ (by decide)]

theorem isTimestamptz_nanos (time : Int) : Db.IsTimestamptz (nanos time) := Int.dvd_mul_left _ _

theorem toInt_bigint {id : Int} (h : Db.IsBigint id) : (Int64.ofInt id).toInt = id :=
  Int64.toInt_ofInt_of_le h.1 h.2

theorem isBigint_toInt (number : Int64) : Db.IsBigint number.toInt :=
  ⟨number.le_toInt, number.toInt_lt⟩

def userCodec : RowCodec Db.User where
  columns := [("username", .varchar), ("hashed_password", .varchar), ("full_name", .varchar),
    ("email", .varchar), ("password_changed_at", .timestamptz), ("created_at", .timestamptz),
    ("is_email_verified", .boolean), ("role", .varchar)]
  values user := [("username", .varchar user.username),
    ("hashed_password", .varchar user.hashedPassword), ("full_name", .varchar user.fullName),
    ("email", .varchar user.email), ("password_changed_at", micros user.passwordChangedAt),
    ("created_at", micros user.createdAt), ("is_email_verified", .boolean user.isEmailVerified),
    ("role", .varchar user.role)]
  decode row := do
    return { username := ← row.text "username", hashedPassword := ← row.text "hashed_password",
             fullName := ← row.text "full_name", email := ← row.text "email",
             passwordChangedAt := nanos (← row.time "password_changed_at"),
             createdAt := nanos (← row.time "created_at"),
             isEmailVerified := ← row.flag "is_email_verified", role := ← row.text "role" }
  valid user := Db.Row.Storable (.user user)
  names _ := rfl
  reads _ := by
    simp only [List.forall_mem_cons, List.not_mem_nil, false_implies, implies_true, and_true]
    exact ⟨⟨_, rfl⟩, ⟨_, rfl⟩, ⟨_, rfl⟩, ⟨_, rfl⟩, ⟨_, rfl⟩, ⟨_, rfl⟩, ⟨_, rfl⟩, ⟨_, rfl⟩⟩
  decode_encode user hvalid := by
    show some (_ : Db.User) = some user
    rw [nanos_micros hvalid.1, nanos_micros hvalid.2]
  exists_record row hshaped hreads := by
    simp only [List.forall_mem_cons, Row.Reads, List.not_mem_nil, false_implies, implies_true,
      and_true] at hreads
    obtain ⟨⟨username, h1⟩, ⟨hashedPassword, h2⟩, ⟨fullName, h3⟩, ⟨email, h4⟩,
      ⟨passwordChangedAt, h5⟩, ⟨createdAt, h6⟩, ⟨isEmailVerified, h7⟩, ⟨role, h8⟩⟩ := hreads
    refine ⟨⟨username, hashedPassword, fullName, email, nanos passwordChangedAt, nanos createdAt,
      isEmailVerified, role⟩, ?_, Row.eq_of hshaped ?_⟩
    · exact ⟨isTimestamptz_nanos _, isTimestamptz_nanos _⟩
    · simp [h1, h2, h3, h4, h5, h6, h7, h8, micros_nanos]

def accountCodec : RowCodec Db.Account where
  columns := [("id", .bigserial), ("owner", .varchar), ("balance", .bigint),
    ("currency", .varchar), ("created_at", .timestamptz)]
  values account := [("id", bigint account.id), ("owner", .varchar account.owner),
    ("balance", .bigint account.balance), ("currency", .varchar account.currency),
    ("created_at", micros account.createdAt)]
  decode row := do
    return { id := (← row.number "id").toInt, owner := ← row.text "owner",
             balance := ← row.number "balance", currency := ← row.text "currency",
             createdAt := nanos (← row.time "created_at") }
  valid account := Db.Row.Storable (.account account)
  names _ := rfl
  reads _ := by
    simp only [List.forall_mem_cons, List.not_mem_nil, false_implies, implies_true, and_true]
    exact ⟨⟨_, rfl⟩, ⟨_, rfl⟩, ⟨_, rfl⟩, ⟨_, rfl⟩, ⟨_, rfl⟩⟩
  decode_encode account hvalid := by
    obtain ⟨hid, hcreatedAt⟩ := hvalid
    show some (_ : Db.Account) = some account
    rw [toInt_bigint hid, nanos_micros hcreatedAt]
  exists_record row hshaped hreads := by
    simp only [List.forall_mem_cons, Row.Reads, List.not_mem_nil, false_implies, implies_true,
      and_true] at hreads
    obtain ⟨⟨id, h1⟩, ⟨owner, h2⟩, ⟨balance, h3⟩, ⟨currency, h4⟩, ⟨createdAt, h5⟩⟩ := hreads
    refine ⟨⟨id.toInt, owner, balance, currency, nanos createdAt⟩, ?_, Row.eq_of hshaped ?_⟩
    · exact ⟨isBigint_toInt _, isTimestamptz_nanos _⟩
    · simp [h1, h2, h3, h4, h5, bigint, micros_nanos]

def entryCodec : RowCodec Db.Entry where
  columns := [("id", .bigserial), ("account_id", .bigint), ("amount", .bigint),
    ("created_at", .timestamptz)]
  values entry := [("id", bigint entry.id), ("account_id", bigint entry.accountID),
    ("amount", .bigint entry.amount), ("created_at", micros entry.createdAt)]
  decode row := do
    return { id := (← row.number "id").toInt, accountID := (← row.number "account_id").toInt,
             amount := ← row.number "amount", createdAt := nanos (← row.time "created_at") }
  valid entry := Db.Row.Storable (.entry entry)
  names _ := rfl
  reads _ := by
    simp only [List.forall_mem_cons, List.not_mem_nil, false_implies, implies_true, and_true]
    exact ⟨⟨_, rfl⟩, ⟨_, rfl⟩, ⟨_, rfl⟩, ⟨_, rfl⟩⟩
  decode_encode entry hvalid := by
    obtain ⟨hid, haccountID, hcreatedAt⟩ := hvalid
    show some (_ : Db.Entry) = some entry
    rw [toInt_bigint hid, toInt_bigint haccountID, nanos_micros hcreatedAt]
  exists_record row hshaped hreads := by
    simp only [List.forall_mem_cons, Row.Reads, List.not_mem_nil, false_implies, implies_true,
      and_true] at hreads
    obtain ⟨⟨id, h1⟩, ⟨accountID, h2⟩, ⟨amount, h3⟩, ⟨createdAt, h4⟩⟩ := hreads
    refine ⟨⟨id.toInt, accountID.toInt, amount, nanos createdAt⟩, ?_, Row.eq_of hshaped ?_⟩
    · exact ⟨isBigint_toInt _, isBigint_toInt _, isTimestamptz_nanos _⟩
    · simp [h1, h2, h3, h4, bigint, micros_nanos]

def transferCodec : RowCodec Db.Transfer where
  columns := [("id", .bigserial), ("from_account_id", .bigint), ("to_account_id", .bigint),
    ("amount", .bigint), ("created_at", .timestamptz)]
  values transfer := [("id", bigint transfer.id),
    ("from_account_id", bigint transfer.fromAccountID),
    ("to_account_id", bigint transfer.toAccountID), ("amount", .bigint transfer.amount),
    ("created_at", micros transfer.createdAt)]
  decode row := do
    return { id := (← row.number "id").toInt,
             fromAccountID := (← row.number "from_account_id").toInt,
             toAccountID := (← row.number "to_account_id").toInt,
             amount := ← row.number "amount", createdAt := nanos (← row.time "created_at") }
  valid transfer := Db.Row.Storable (.transfer transfer)
  names _ := rfl
  reads _ := by
    simp only [List.forall_mem_cons, List.not_mem_nil, false_implies, implies_true, and_true]
    exact ⟨⟨_, rfl⟩, ⟨_, rfl⟩, ⟨_, rfl⟩, ⟨_, rfl⟩, ⟨_, rfl⟩⟩
  decode_encode transfer hvalid := by
    obtain ⟨hid, hfromAccountID, htoAccountID, hcreatedAt⟩ := hvalid
    show some (_ : Db.Transfer) = some transfer
    rw [toInt_bigint hid, toInt_bigint hfromAccountID, toInt_bigint htoAccountID,
      nanos_micros hcreatedAt]
  exists_record row hshaped hreads := by
    simp only [List.forall_mem_cons, Row.Reads, List.not_mem_nil, false_implies, implies_true,
      and_true] at hreads
    obtain ⟨⟨id, h1⟩, ⟨fromAccountID, h2⟩, ⟨toAccountID, h3⟩, ⟨amount, h4⟩,
      ⟨createdAt, h5⟩⟩ := hreads
    refine ⟨⟨id.toInt, fromAccountID.toInt, toAccountID.toInt, amount,
      nanos createdAt⟩, ?_, Row.eq_of hshaped ?_⟩
    · exact ⟨isBigint_toInt _, isBigint_toInt _, isBigint_toInt _, isTimestamptz_nanos _⟩
    · simp [h1, h2, h3, h4, h5, bigint, micros_nanos]

def sessionCodec : RowCodec Db.Session where
  columns := [("id", .uuid), ("username", .varchar), ("refresh_token", .varchar),
    ("user_agent", .varchar), ("client_ip", .varchar), ("is_blocked", .boolean),
    ("expires_at", .timestamptz), ("created_at", .timestamptz)]
  values session := [("id", .uuid session.id), ("username", .varchar session.username),
    ("refresh_token", .varchar session.refreshToken), ("user_agent", .varchar session.userAgent),
    ("client_ip", .varchar session.clientIp), ("is_blocked", .boolean session.isBlocked),
    ("expires_at", micros session.expiresAt), ("created_at", micros session.createdAt)]
  decode row := do
    return { id := ← row.bits "id", username := ← row.text "username",
             refreshToken := ← row.text "refresh_token", userAgent := ← row.text "user_agent",
             clientIp := ← row.text "client_ip", isBlocked := ← row.flag "is_blocked",
             expiresAt := nanos (← row.time "expires_at"),
             createdAt := nanos (← row.time "created_at") }
  valid session := Db.Row.Storable (.session session)
  names _ := rfl
  reads _ := by
    simp only [List.forall_mem_cons, List.not_mem_nil, false_implies, implies_true, and_true]
    exact ⟨⟨_, rfl⟩, ⟨_, rfl⟩, ⟨_, rfl⟩, ⟨_, rfl⟩, ⟨_, rfl⟩, ⟨_, rfl⟩, ⟨_, rfl⟩, ⟨_, rfl⟩⟩
  decode_encode session hvalid := by
    obtain ⟨hexpiresAt, hcreatedAt⟩ := hvalid
    show some (_ : Db.Session) = some session
    rw [nanos_micros hexpiresAt, nanos_micros hcreatedAt]
  exists_record row hshaped hreads := by
    simp only [List.forall_mem_cons, Row.Reads, List.not_mem_nil, false_implies, implies_true,
      and_true] at hreads
    obtain ⟨⟨id, h1⟩, ⟨username, h2⟩, ⟨refreshToken, h3⟩, ⟨userAgent, h4⟩, ⟨clientIp, h5⟩,
      ⟨isBlocked, h6⟩, ⟨expiresAt, h7⟩, ⟨createdAt, h8⟩⟩ := hreads
    refine ⟨⟨id, username, refreshToken, userAgent, clientIp, isBlocked, nanos expiresAt,
      nanos createdAt⟩, ?_, Row.eq_of hshaped ?_⟩
    · exact ⟨isTimestamptz_nanos _, isTimestamptz_nanos _⟩
    · simp [h1, h2, h3, h4, h5, h6, h7, h8, micros_nanos]

def verifyEmailCodec : RowCodec Db.VerifyEmail where
  columns := [("id", .bigserial), ("username", .varchar), ("email", .varchar),
    ("secret_code", .varchar), ("is_used", .boolean), ("created_at", .timestamptz),
    ("expired_at", .timestamptz)]
  values link := [("id", bigint link.id), ("username", .varchar link.username),
    ("email", .varchar link.email), ("secret_code", .varchar link.secretCode),
    ("is_used", .boolean link.isUsed), ("created_at", micros link.createdAt),
    ("expired_at", micros link.expiredAt)]
  decode row := do
    return { id := (← row.number "id").toInt, username := ← row.text "username",
             email := ← row.text "email", secretCode := ← row.text "secret_code",
             isUsed := ← row.flag "is_used", createdAt := nanos (← row.time "created_at"),
             expiredAt := nanos (← row.time "expired_at") }
  valid link := Db.Row.Storable (.verifyEmail link)
  names _ := rfl
  reads _ := by
    simp only [List.forall_mem_cons, List.not_mem_nil, false_implies, implies_true, and_true]
    exact ⟨⟨_, rfl⟩, ⟨_, rfl⟩, ⟨_, rfl⟩, ⟨_, rfl⟩, ⟨_, rfl⟩, ⟨_, rfl⟩, ⟨_, rfl⟩⟩
  decode_encode link hvalid := by
    obtain ⟨hid, hcreatedAt, hexpiredAt⟩ := hvalid
    show some (_ : Db.VerifyEmail) = some link
    rw [toInt_bigint hid, nanos_micros hcreatedAt, nanos_micros hexpiredAt]
  exists_record row hshaped hreads := by
    simp only [List.forall_mem_cons, Row.Reads, List.not_mem_nil, false_implies, implies_true,
      and_true] at hreads
    obtain ⟨⟨id, h1⟩, ⟨username, h2⟩, ⟨email, h3⟩, ⟨secretCode, h4⟩, ⟨isUsed, h5⟩,
      ⟨createdAt, h6⟩, ⟨expiredAt, h7⟩⟩ := hreads
    refine ⟨⟨id.toInt, username, email, secretCode, isUsed, nanos createdAt,
      nanos expiredAt⟩, ?_, Row.eq_of hshaped ?_⟩
    · exact ⟨isBigint_toInt _, isTimestamptz_nanos _, isTimestamptz_nanos _⟩
    · simp [h1, h2, h3, h4, h5, h6, h7, bigint, micros_nanos]

/-- The rows of the tables, under their names. -/
def contentOf (db : Db.Database) : Content
  | "accounts" => db.accounts.rows.map accountCodec.encode
  | "entries" => db.entries.rows.map entryCodec.encode
  | "transfers" => db.transfers.rows.map transferCodec.encode
  | "users" => db.users.rows.map userCodec.encode
  | "sessions" => db.sessions.rows.map sessionCodec.encode
  | "verify_emails" => db.verifyEmails.rows.map verifyEmailCodec.encode
  | _ => []

def tableNames : List String :=
  ["accounts", "entries", "transfers", "users", "sessions", "verify_emails"]

/-- The schema after the last migration. -/
theorem latest_checked :
    (schemaAt latest).tables.map TableDef.name = tableNames ∧
    accountCodec.Fits (schemaAt latest) "accounts" ∧ entryCodec.Fits (schemaAt latest) "entries" ∧
    transferCodec.Fits (schemaAt latest) "transfers" ∧ userCodec.Fits (schemaAt latest) "users" ∧
    sessionCodec.Fits (schemaAt latest) "sessions" ∧
    verifyEmailCodec.Fits (schemaAt latest) "verify_emails" ∧
    (schemaAt latest).constraints =
      [⟨"accounts_pkey", "accounts", ["id"], .primaryKey⟩,
       ⟨"entries_pkey", "entries", ["id"], .primaryKey⟩,
       ⟨"transfers_pkey", "transfers", ["id"], .primaryKey⟩,
       ⟨"entries_account_id_fkey", "entries", ["account_id"], .foreignKey "accounts" ["id"]⟩,
       ⟨"transfers_from_account_id_fkey", "transfers", ["from_account_id"],
        .foreignKey "accounts" ["id"]⟩,
       ⟨"transfers_to_account_id_fkey", "transfers", ["to_account_id"],
        .foreignKey "accounts" ["id"]⟩,
       ⟨"users_pkey", "users", ["username"], .primaryKey⟩,
       ⟨"users_email_key", "users", ["email"], .unique⟩,
       ⟨"accounts_owner_fkey", "accounts", ["owner"], .foreignKey "users" ["username"]⟩,
       ⟨"owner_currency_key", "accounts", ["owner", "currency"], .unique⟩,
       ⟨"sessions_pkey", "sessions", ["id"], .primaryKey⟩,
       ⟨"sessions_username_fkey", "sessions", ["username"], .foreignKey "users" ["username"]⟩,
       ⟨"verify_emails_pkey", "verify_emails", ["id"], .primaryKey⟩,
       ⟨"verify_emails_username_fkey", "verify_emails", ["username"],
        .foreignKey "users" ["username"]⟩] := by
  decide +kernel

theorem bigint_inj {id other : Int} (hid : Db.IsBigint id) (hother : Db.IsBigint other)
    (h : bigint id = bigint other) : id = other := by
  rw [← toInt_bigint hid, ← toInt_bigint hother, Value.bigint.inj h]

theorem contentOf_of_not_mem (db : Db.Database) {table : String} (h : table ∉ tableNames) :
    contentOf db table = [] := by
  unfold contentOf
  split <;> simp_all [tableNames]

section Constraints

variable {db : Db.Database}

/-! The keys that the constraints are about, as they are read off the rows. -/

theorem keys_accounts : (contentOf db).keys "accounts" ["id"] =
    db.accounts.rows.map fun account => [bigint account.id] :=
  Content.keys_map rfl fun _ => rfl

theorem keys_entries : (contentOf db).keys "entries" ["id"] =
    db.entries.rows.map fun entry => [bigint entry.id] :=
  Content.keys_map rfl fun _ => rfl

theorem keys_transfers : (contentOf db).keys "transfers" ["id"] =
    db.transfers.rows.map fun transfer => [bigint transfer.id] :=
  Content.keys_map rfl fun _ => rfl

theorem keys_users : (contentOf db).keys "users" ["username"] =
    db.users.rows.map fun user => [.varchar user.username] :=
  Content.keys_map rfl fun _ => rfl

theorem keys_sessions : (contentOf db).keys "sessions" ["id"] =
    db.sessions.rows.map fun session => [.uuid session.id] :=
  Content.keys_map rfl fun _ => rfl

theorem keys_verifyEmails : (contentOf db).keys "verify_emails" ["id"] =
    db.verifyEmails.rows.map fun link => [bigint link.id] :=
  Content.keys_map rfl fun _ => rfl

theorem keys_email : (contentOf db).keys "users" ["email"] =
    db.users.rows.map fun user => [.varchar user.email] :=
  Content.keys_map rfl fun _ => rfl

theorem keys_ownerCurrency : (contentOf db).keys "accounts" ["owner", "currency"] =
    db.accounts.rows.map fun account => [.varchar account.owner, .varchar account.currency] :=
  Content.keys_map rfl fun _ => rfl

theorem keys_owner : (contentOf db).keys "accounts" ["owner"] =
    db.accounts.rows.map fun account => [.varchar account.owner] :=
  Content.keys_map rfl fun _ => rfl

theorem keys_accountID : (contentOf db).keys "entries" ["account_id"] =
    db.entries.rows.map fun entry => [bigint entry.accountID] :=
  Content.keys_map rfl fun _ => rfl

theorem keys_fromAccountID : (contentOf db).keys "transfers" ["from_account_id"] =
    db.transfers.rows.map fun transfer => [bigint transfer.fromAccountID] :=
  Content.keys_map rfl fun _ => rfl

theorem keys_toAccountID : (contentOf db).keys "transfers" ["to_account_id"] =
    db.transfers.rows.map fun transfer => [bigint transfer.toAccountID] :=
  Content.keys_map rfl fun _ => rfl

theorem keys_sessionUsername : (contentOf db).keys "sessions" ["username"] =
    db.sessions.rows.map fun session => [.varchar session.username] :=
  Content.keys_map rfl fun _ => rfl

theorem keys_linkUsername : (contentOf db).keys "verify_emails" ["username"] =
    db.verifyEmails.rows.map fun link => [.varchar link.username] :=
  Content.keys_map rfl fun _ => rfl

/-- A column without duplicates is an index without duplicates. -/
theorem nodup_iff_key_eq {ρ κ ι : Type} [DecidableEq κ] {key : ρ → κ} {table : Table κ ρ key}
    {column : ρ → ι} : (table.rows.map column).Nodup ↔
      ∀ row ∈ table.rows, ∀ other ∈ table.rows, column row = column other → key row = key other := by
  constructor
  · intro h row hrow other hother hcolumn
    rw [List.inj_on_of_nodup_map h hrow hother hcolumn]
  · intro h
    refine (List.Nodup.of_map _ table.nodup).map_on fun row hrow other hother hcolumn => ?_
    exact List.inj_on_of_nodup_map table.nodup hrow hother (h row hrow other hother hcolumn)

theorem emails_iff : UniqueIn Db.Row.emailEntry db ↔ (db.users.rows.map Db.User.email).Nodup := by
  rw [Db.Database.uniqueIn_iff, nodup_iff_key_eq]
  simp [Db.Database.rows, Db.Row.emailEntry, Db.Row.key, or_imp, forall_and]

theorem ownerCurrencies_iff : UniqueIn Db.Row.ownerCurrencyEntry db ↔
    (db.accounts.rows.map fun account => (account.owner, account.currency)).Nodup := by
  rw [Db.Database.uniqueIn_iff, nodup_iff_key_eq]
  simp [Db.Database.rows, Db.Row.ownerCurrencyEntry, Db.Row.key, or_imp, forall_and]

theorem referential_iff : db.Referential ↔
    (∀ account ∈ db.accounts.rows, ∃ user ∈ db.users.rows, user.username = account.owner) ∧
    (∀ entry ∈ db.entries.rows, ∃ account ∈ db.accounts.rows, account.id = entry.accountID) ∧
    (∀ transfer ∈ db.transfers.rows,
      (∃ account ∈ db.accounts.rows, account.id = transfer.fromAccountID) ∧
      ∃ account ∈ db.accounts.rows, account.id = transfer.toAccountID) ∧
    (∀ session ∈ db.sessions.rows, ∃ user ∈ db.users.rows, user.username = session.username) ∧
    ∀ link ∈ db.verifyEmails.rows, ∃ user ∈ db.users.rows, user.username = link.username := by
  rw [Db.Database.Referential, Db.Database.forall_lookup_iff]
  simp [Db.Database.rows, Db.Row.refers, Db.Database.lookup, Table.find?, or_imp, forall_and]

theorem mem_rows_cases {P : Db.Row → Prop} : (∀ row ∈ db.rows, P row) ↔
    (∀ user ∈ db.users.rows, P (.user user)) ∧ (∀ account ∈ db.accounts.rows, P (.account account)) ∧
    (∀ entry ∈ db.entries.rows, P (.entry entry)) ∧
    (∀ transfer ∈ db.transfers.rows, P (.transfer transfer)) ∧
    (∀ session ∈ db.sessions.rows, P (.session session)) ∧
    ∀ link ∈ db.verifyEmails.rows, P (.verifyEmail link) := by
  simp [Db.Database.rows, or_imp, forall_and]

theorem shaped_contentOf (db : Db.Database) :
    (contentOf db).restrict (schemaAt latest) = contentOf db := by
  obtain ⟨hnames, haccounts, hentries, htransfers, husers, hsessions, hlinks, -⟩ := latest_checked
  funext table
  show Row.restrictAll ((schemaAt latest).columns? table) (contentOf db table) = contentOf db table
  by_cases hmem : table ∈ tableNames
  · simp only [tableNames, List.mem_cons, List.not_mem_nil, or_false] at hmem
    rcases hmem with rfl | rfl | rfl | rfl | rfl | rfl
    · rw [haccounts.columns]
      exact accountCodec.restrictAll_map _
    · rw [hentries.columns]
      exact entryCodec.restrictAll_map _
    · rw [htransfers.columns]
      exact transferCodec.restrictAll_map _
    · rw [husers.columns]
      exact userCodec.restrictAll_map _
    · rw [hsessions.columns]
      exact sessionCodec.restrictAll_map _
    · rw [hlinks.columns]
      exact verifyEmailCodec.restrictAll_map _
  · rw [contentOf_of_not_mem db hmem]
    cases (schemaAt latest).columns? table <;> rfl

theorem typed_contentOf (db : Db.Database) : ∀ table ∈ (schemaAt latest).tables,
    ∀ row ∈ contentOf db table.name, ∀ column ∈ table.columns,
      (row column.name).any column.admits = true := by
  obtain ⟨hnames, haccounts, hentries, htransfers, husers, hsessions, hlinks, -⟩ := latest_checked
  intro table hmem
  have hnodup : ((schemaAt latest).tables.map TableDef.name).Nodup := hnames ▸ by decide
  have hname : table.name ∈ tableNames := hnames ▸ List.mem_map_of_mem hmem
  simp only [tableNames, List.mem_cons, List.not_mem_nil, or_false] at hname
  rcases hname with hname | hname | hname | hname | hname | hname <;> rw [hname]
  · exact (hname ▸ haccounts).typed hnodup hmem _
  · exact (hname ▸ hentries).typed hnodup hmem _
  · exact (hname ▸ htransfers).typed hnodup hmem _
  · exact (hname ▸ husers).typed hnodup hmem _
  · exact (hname ▸ hsessions).typed hnodup hmem _
  · exact (hname ▸ hlinks).typed hnodup hmem _

/-- A key of the schema, on the values that it is about. -/
theorem holds_key_iff {ρ κ ι : Type} [DecidableEq κ] {key : ρ → κ} {rows : Table κ ρ key} {value : ρ → ι}
    {name table : String} {columns : List String} {kind : ConstraintKind} {k : ρ → List Value}
    (hkind : kind = .primaryKey ∨ kind = .unique)
    (hkeys : (contentOf db).keys table columns = rows.rows.map k)
    (hvalue : ∀ row ∈ rows.rows, ∀ other ∈ rows.rows, k row = k other ↔ value row = value other) :
    Constraint.Holds ⟨name, table, columns, kind⟩ (contentOf db) ↔ (rows.rows.map value).Nodup := by
  rw [Constraint.holds_key_iff hkind hkeys, nodup_iff_key_eq, nodup_iff_key_eq]
  exact forall₂_congr fun row hrow => forall₂_congr fun other hother => by
    rw [hvalue row hrow other hother]

/-- Serial ids are a primary key. -/
theorem holds_serialKey {ρ : Type} {key : ρ → Int} {rows : Table Int ρ key} {name table : String}
    (hkeys : (contentOf db).keys table ["id"] = rows.rows.map fun row => [bigint (key row)])
    (hids : ∀ row ∈ rows.rows, Db.IsBigint (key row)) :
    Constraint.Holds ⟨name, table, ["id"], .primaryKey⟩ (contentOf db) := by
  refine (holds_key_iff (.inl rfl) hkeys fun row hrow other hother => ?_).mpr rows.nodup
  constructor
  · exact fun h => bigint_inj (hids row hrow) (hids other hother) (List.cons.inj h).1
  · exact fun h => by rw [h]

/-- A reference to an account. -/
theorem holds_account_iff {ρ : Type} {rows : List ρ} {accountID : ρ → Int} {name table column : String}
    (hkeys : (contentOf db).keys table [column] = rows.map fun row => [bigint (accountID row)])
    (hids : ∀ account ∈ db.accounts.rows, Db.IsBigint account.id)
    (hrows : ∀ row ∈ rows, Db.IsBigint (accountID row)) :
    Constraint.Holds ⟨name, table, [column], .foreignKey "accounts" ["id"]⟩ (contentOf db) ↔
      ∀ row ∈ rows, ∃ account ∈ db.accounts.rows, account.id = accountID row := by
  rw [Constraint.holds_foreignKey_iff hkeys keys_accounts]
  constructor
  · intro h row hrow
    obtain ⟨account, haccount, hid⟩ := h row hrow
    exact ⟨account, haccount,
      bigint_inj (hids account haccount) (hrows row hrow) (List.cons.inj hid).1⟩
  · intro h row hrow
    obtain ⟨account, haccount, hid⟩ := h row hrow
    exact ⟨account, haccount, by rw [hid]⟩

/-- A reference to a user. -/
theorem holds_user_iff {ρ : Type} {rows : List ρ} {username : ρ → String} {name table column : String}
    (hkeys : (contentOf db).keys table [column] = rows.map fun row => [.varchar (username row)]) :
    Constraint.Holds ⟨name, table, [column], .foreignKey "users" ["username"]⟩ (contentOf db) ↔
      ∀ row ∈ rows, ∃ user ∈ db.users.rows, user.username = username row := by
  rw [Constraint.holds_foreignKey_iff hkeys keys_users]
  simp

/-- The constraints of the schema, for tables whose values fit their columns. -/
theorem constraints_contentOf_iff (hstorable : ∀ row ∈ db.rows, row.Storable) :
    (∀ constraint ∈ (schemaAt latest).constraints, constraint.Holds (contentOf db)) ↔
      db.Referential ∧ UniqueIn Db.Row.emailEntry db ∧ UniqueIn Db.Row.ownerCurrencyEntry db := by
  obtain ⟨-, -, -, -, -, -, -, hconstraints⟩ := latest_checked
  obtain ⟨-, haccounts, hentries, htransfers, -, hlinks⟩ := mem_rows_cases.mp hstorable
  have hids : ∀ account ∈ db.accounts.rows, Db.IsBigint account.id :=
    fun row hrow => (haccounts row hrow).1
  have hentryIDs : ∀ entry ∈ db.entries.rows, Db.IsBigint entry.accountID :=
    fun row hrow => (hentries row hrow).2.1
  have hfromIDs : ∀ transfer ∈ db.transfers.rows, Db.IsBigint transfer.fromAccountID :=
    fun row hrow => (htransfers row hrow).2.1
  have htoIDs : ∀ transfer ∈ db.transfers.rows, Db.IsBigint transfer.toAccountID :=
    fun row hrow => (htransfers row hrow).2.2.1
  rw [hconstraints, referential_iff, emails_iff, ownerCurrencies_iff]
  simp only [List.forall_mem_cons, List.not_mem_nil, false_implies, implies_true, and_true,
    forall_and]
  constructor
  · rintro ⟨-, -, -, hentry, hfrom, hto, -, hemail, howner, hcurrency, -, hsession, -, hlink⟩
    refine ⟨⟨(holds_user_iff keys_owner).mp howner,
      (holds_account_iff keys_accountID hids hentryIDs).mp hentry,
      ⟨(holds_account_iff keys_fromAccountID hids hfromIDs).mp hfrom,
        (holds_account_iff keys_toAccountID hids htoIDs).mp hto⟩,
      (holds_user_iff keys_sessionUsername).mp hsession,
      (holds_user_iff keys_linkUsername).mp hlink⟩, ?_, ?_⟩
    · exact (holds_key_iff (.inr rfl) keys_email fun _ _ _ _ => by simp).mp hemail
    · exact (holds_key_iff (.inr rfl) keys_ownerCurrency fun _ _ _ _ => by simp).mp hcurrency
  · rintro ⟨⟨howner, hentry, ⟨hfrom, hto⟩, hsession, hlink⟩, hemail, hcurrency⟩
    refine ⟨holds_serialKey keys_accounts hids,
      holds_serialKey keys_entries fun row hrow => (hentries row hrow).1,
      holds_serialKey keys_transfers fun row hrow => (htransfers row hrow).1,
      (holds_account_iff keys_accountID hids hentryIDs).mpr hentry,
      (holds_account_iff keys_fromAccountID hids hfromIDs).mpr hfrom,
      (holds_account_iff keys_toAccountID hids htoIDs).mpr hto, ?_, ?_,
      (holds_user_iff keys_owner).mpr howner, ?_, ?_,
      (holds_user_iff keys_sessionUsername).mpr hsession,
      holds_serialKey keys_verifyEmails fun row hrow => (hlinks row hrow).1,
      (holds_user_iff keys_linkUsername).mpr hlink⟩
    · exact (holds_key_iff (.inl rfl) keys_users fun _ _ _ _ => by simp).mpr db.users.nodup
    · exact (holds_key_iff (.inr rfl) keys_email fun _ _ _ _ => by simp).mpr hemail
    · exact (holds_key_iff (.inr rfl) keys_ownerCurrency fun _ _ _ _ => by simp).mpr hcurrency
    · exact (holds_key_iff (.inl rfl) keys_sessions fun _ _ _ _ => by simp).mpr db.sessions.nodup

end Constraints

theorem satisfies_contentOf {db : Db.Database} (h : db.Consistent) :
    Satisfies (schemaAt latest) (contentOf db) where
  shaped := shaped_contentOf db
  typed := typed_contentOf db
  constraints := (constraints_contentOf_iff (Db.Database.forall_lookup_iff.mp h.storable)).mpr
    ⟨h.referential, h.emails, h.ownerCurrencies⟩

/-- Content that fits the schema is that of consistent tables. -/
theorem exists_database {content : Content} (h : Satisfies (schemaAt latest) content) :
    ∃ db : Db.Database, db.Consistent ∧ contentOf db = content := by
  obtain ⟨hnames, haccounts, hentries, htransfers, husers, hsessions, hlinks, hconstraints⟩ :=
    latest_checked
  have hkey : ∀ table column, (table, column) ∈ [("accounts", "id"), ("entries", "id"),
      ("transfers", "id"), ("users", "username"), ("sessions", "id"), ("verify_emails", "id")] →
      (⟨table ++ "_pkey", table, [column], .primaryKey⟩ : Constraint) ∈
        (schemaAt latest).constraints := by
    rw [hconstraints]
    intro table column hmem
    simp only [List.mem_cons, Prod.mk.injEq, List.not_mem_nil, or_false] at hmem
    rcases hmem with ⟨rfl, rfl⟩ | ⟨rfl, rfl⟩ | ⟨rfl, rfl⟩ | ⟨rfl, rfl⟩ | ⟨rfl, rfl⟩ | ⟨rfl, rfl⟩ <;>
      decide
  obtain ⟨accounts, haccountsValid, haccountsRows, haccountsKey⟩ := haccounts.exists_keyed h
    (hkey _ "id" (by decide)) (v := Db.Account.id) (f := fun id => [bigint id]) fun _ => rfl
  obtain ⟨entries, hentriesValid, hentriesRows, hentriesKey⟩ := hentries.exists_keyed h
    (hkey _ "id" (by decide)) (v := Db.Entry.id) (f := fun id => [bigint id]) fun _ => rfl
  obtain ⟨transfers, htransfersValid, htransfersRows, htransfersKey⟩ := htransfers.exists_keyed h
    (hkey _ "id" (by decide)) (v := Db.Transfer.id) (f := fun id => [bigint id]) fun _ => rfl
  obtain ⟨users, husersValid, husersRows, husersKey⟩ := husers.exists_keyed h
    (hkey _ "username" (by decide)) (v := Db.User.username) (f := fun name => [.varchar name])
    fun _ => rfl
  obtain ⟨sessions, hsessionsValid, hsessionsRows, hsessionsKey⟩ := hsessions.exists_keyed h
    (hkey _ "id" (by decide)) (v := Db.Session.id) (f := fun id => [.uuid id]) fun _ => rfl
  obtain ⟨links, hlinksValid, hlinksRows, hlinksKey⟩ := hlinks.exists_keyed h
    (hkey _ "id" (by decide)) (v := Db.VerifyEmail.id) (f := fun id => [bigint id]) fun _ => rfl
  let db : Db.Database := ⟨⟨users, husersKey⟩, ⟨accounts, haccountsKey⟩, ⟨entries, hentriesKey⟩,
    ⟨transfers, htransfersKey⟩, ⟨sessions, hsessionsKey⟩, ⟨links, hlinksKey⟩⟩
  have hcontent : contentOf db = content := by
    funext table
    by_cases hmem : table ∈ tableNames
    · simp only [tableNames, List.mem_cons, List.not_mem_nil, or_false] at hmem
      rcases hmem with rfl | rfl | rfl | rfl | rfl | rfl
      · exact haccountsRows.symm
      · exact hentriesRows.symm
      · exact htransfersRows.symm
      · exact husersRows.symm
      · exact hsessionsRows.symm
      · exact hlinksRows.symm
    · rw [contentOf_of_not_mem db hmem, h.empty_of_not_mem (hnames ▸ hmem)]
  have hstorable : ∀ row ∈ db.rows, row.Storable := mem_rows_cases.mpr
    ⟨husersValid, haccountsValid, hentriesValid, htransfersValid, hsessionsValid, hlinksValid⟩
  obtain ⟨hreferential, hemails, hcurrencies⟩ :=
    (constraints_contentOf_iff hstorable).mp (hcontent ▸ h.constraints)
  exact ⟨db, ⟨Db.Database.forall_lookup_iff.mpr hstorable, hreferential, hemails, hcurrencies⟩,
    hcontent⟩

/-- Every row is read back as it was written. -/
theorem contentOf_inj {db other : Db.Database} (hdb : db.Storable) (hother : other.Storable)
    (h : contentOf db = contentOf other) : db = other := by
  obtain ⟨husers, haccounts, hentries, htransfers, hsessions, hlinks⟩ :=
    mem_rows_cases.mp (Db.Database.forall_lookup_iff.mp hdb)
  obtain ⟨husers', haccounts', hentries', htransfers', hsessions', hlinks'⟩ :=
    mem_rows_cases.mp (Db.Database.forall_lookup_iff.mp hother)
  cases db
  cases other
  simp only [Db.Database.mk.injEq]
  refine ⟨?_, ?_, ?_, ?_, ?_, ?_⟩ <;> apply Table.ext
  · exact userCodec.map_inj husers husers' (congrFun h "users")
  · exact accountCodec.map_inj haccounts haccounts' (congrFun h "accounts")
  · exact entryCodec.map_inj hentries hentries' (congrFun h "entries")
  · exact transferCodec.map_inj htransfers htransfers' (congrFun h "transfers")
  · exact sessionCodec.map_inj hsessions hsessions' (congrFun h "sessions")
  · exact verifyEmailCodec.map_inj hlinks hlinks' (congrFun h "verify_emails")

/-- The migrated schema admits the consistent tables and nothing else, and each
content is that of one database. -/
theorem satisfies_latest_iff {content : Content} : Satisfies (schemaAt latest) content ↔
    ∃! db : Db.Database, db.Consistent ∧ contentOf db = content := by
  constructor
  · intro h
    obtain ⟨db, hconsistent, rfl⟩ := exists_database h
    exact ⟨db, ⟨hconsistent, rfl⟩, fun other hother =>
      contentOf_inj hother.1.storable hconsistent.storable hother.2⟩
  · rintro ⟨db, ⟨hconsistent, rfl⟩, -⟩
    exact satisfies_contentOf hconsistent

end SimpleBank.Migration
