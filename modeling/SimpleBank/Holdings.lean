import SimpleBank.Effects
import SimpleBank.Integrity
import SimpleBank.Pagination

/-! What a user can hold: one account in each supported currency, so that the
first page of `GET /accounts` has them all. -/
namespace SimpleBank
open Library Db

def Util.supportedCurrencies : List String := [usd, eur, cad]

theorem Util.mem_supportedCurrencies {currency : String} :
    currency ∈ supportedCurrencies ↔ isSupportedCurrency currency = true := by
  simp [supportedCurrencies, isSupportedCurrency, or_assoc]

def Db.Database.SupportsAccounts (db : Database) : Prop :=
  ∀ account ∈ db.accounts.rows, Util.isSupportedCurrency account.currency = true

instance (db : Database) : Decidable db.SupportsAccounts := inferInstanceAs (Decidable (∀ _ ∈ _, _))

section Holdings

variable {deps : Deps} {ok : ServiceConfig → Event Job Choice External → Prop} {w : World}
  {config : ServiceConfig} {job : Job} {history : History} {thread : Nat} {owner : String}

/-- Accounts are opened in supported currencies, and keep them. -/
theorem Db.Database.SupportsAccounts.change {exchange : Exchange Op Op.Reply} {db' : Database}
    (h : w.db.SupportsAccounts) (hchange : Change deps job history w thread exchange db') :
    db'.SupportsAccounts := by
  cases hchange with
  | nothing _ | user _ _ _ _ | profile _ _ _ _ | session _ _ _ | link _ _ _ _ _
    | verified _ _ _ _ _ _ _ _ _ => exact h
  | account arg row _ _ hsupported =>
    intro account hmem
    rcases Table.mem_put hmem with rfl | hmem
    · exact hsupported
    · exact h account hmem
  | payment payment =>
    intro account hmem
    have hfind := Table.find?_of_mem hmem
    cases hold : w.db.accounts.find? account.id with
    | none => cases (payment.applied.find?_none hold).symm.trans hfind
    | some old =>
      obtain ⟨moved, hmoved, hchange⟩ := payment.applied.find? hold
      cases hfind.symm.trans hmoved
      rw [hchange.currency_eq]
      exact h old (Table.find?_mem hold).1

theorem supportsAccounts_of_reach (hstart : w.txs = .empty) (hinit : w.db.SupportsAccounts)
    (hreach : (service deps).Reach ok (.initial w) config) : config.world.db.SupportsAccounts :=
  database_invariant hstart hinit (fun _ _ h => h) (fun _ h hchange => h.change hchange) hreach

/-- No two accounts of an owner have the same currency, and there are three of them. -/
theorem Db.Database.length_accountsOf_le {db : Database} (hsupported : db.SupportsAccounts)
    (hunique : UniqueIn Row.ownerCurrencyEntry db) (owner : String) :
    (db.accountsOf owner).length ≤ 3 := by
  have mem : ∀ account ∈ db.accountsOf owner,
      db.lookup (.account account.id) = some (.account account) ∧ account.owner = owner := by
    intro account hmem
    obtain ⟨hrow, howner⟩ := List.mem_filter.mp hmem
    exact ⟨Database.lookup_account.mpr (Table.find?_of_mem hrow), of_decide_eq_true howner⟩
  have hnodup : ((db.accountsOf owner).map Account.currency).Nodup := by
    refine (List.Nodup.of_map _ (db.nodup_accountsOf owner)).map_on fun left hleft right hright hsame => ?_
    obtain ⟨hfind, hname⟩ := mem left hleft
    obtain ⟨hother, hothername⟩ := mem right hright
    have hkey : Key.account left.id = .account right.id := hunique hfind hother rfl
      (by rw [Row.ownerCurrencyEntry, hname, hothername, hsame])
    exact List.inj_on_of_nodup_map (db.nodup_accountsOf owner) hleft hright (Key.account.inj hkey)
  have hsubset : (db.accountsOf owner).map Account.currency ⊆ Util.supportedCurrencies := by
    intro currency hmem
    obtain ⟨account, haccount, rfl⟩ := List.mem_map.mp hmem
    exact Util.mem_supportedCurrencies.mpr (hsupported account (List.mem_filter.mp haccount).1)
  have hlength := (List.subperm_of_subset hnodup hsubset).length_le
  rwa [List.length_map] at hlength

/-- However many requests have been served, `GET /accounts` shows all accounts of
the caller on its first page, and nothing on the later ones that the offset reaches. -/
theorem first_page_complete {authorization : String} {now : Time} {payload : Token.Payload}
    {req : Api.ListAccountRequest} {choice : Choice} (hstart : w.txs = .empty)
    (hinit : w.db.Consistent) (hsupported : w.db.SupportsAccounts)
    (hreach : (service deps).Reach (fun _ event => Sequenced event) (.initial w) config)
    (hauth : Api.authMiddleware deps now authorization = .ok payload)
    (hreq : req.check = .ok ()) (hhealthy : choice.fail = none) (hoffset : req.exactOffset < 2 ^ 31) :
    served deps thread choice ⟨.listAccounts authorization (.ok req), now⟩ config.world =
      some (.http ⟨Api.statusOK, .accounts
        (if req.pageID = 1 then (config.world.db.accountsOf payload.username).insertionSort
          fun left right => left.id ≤ right.id
        else [])⟩, config.world) := by
  have hlength := Database.length_accountsOf_le (supportsAccounts_of_reach hstart hsupported hreach)
    (Intact.reach hstart hinit (fun _ _ h => h) hreach).consistent.ownerCurrencies payload.username
  obtain ⟨accounts, heval, hexact⟩ : ∃ accounts, evalListAccounts config.world.db
      ⟨payload.username, req.pageSize, (req.pageID - 1) * req.pageSize⟩ = .ok accounts ∧
      ExactPage config.world.db payload.username req accounts :=
    (evalListAccounts_exact_iff hreq).mpr (.inl hoffset)
  obtain ⟨hpage, hsize, -⟩ := Api.ListAccountRequest.inRange hreq
  rw [served_listAccounts hauth hreq hhealthy, heval]
  dsimp only
  congr 5
  split
  · rename_i hone
    have hzero : req.exactOffset = 0 := by
      rw [Api.ListAccountRequest.exactOffset, hone]
      exact Int.zero_mul _
    rw [(exactPage_iff hreq).mp hexact, hzero, Int.toNat_zero, List.drop_zero, List.take_of_length_le]
    rw [List.length_insertionSort]
    omega
  · rename_i hone
    have hne : req.pageID.toInt ≠ 1 := fun h => hone (Int32.toInt_inj.mp h)
    refine hexact.eq_nil hreq ?_
    have hproduct : 1 * req.pageSize.toInt ≤ (req.pageID.toInt - 1) * req.pageSize.toInt :=
      Int.mul_le_mul_of_nonneg_right (by omega) (by omega)
    rw [Api.ListAccountRequest.exactOffset]
    omega

end Holdings

theorem first_page_complete_sample :
    served Sample.deps 0 {} ⟨.listAccounts "Bearer alice" (.ok ⟨1, 5⟩), 0⟩ Sample.funded =
      some (.http ⟨Api.statusOK, .accounts
        (if (1 : Int32) = 1 then (Sample.funded.db.accountsOf "alice").insertionSort
          fun left right => left.id ≤ right.id
        else [])⟩, Sample.funded) :=
  first_page_complete rfl Sample.funded_consistent (by decide +kernel)
    (.start : (service Sample.deps).Reach _ (.initial Sample.funded) (.initial Sample.funded))
    alice_authorized (by decide +kernel) rfl (by decide +kernel)

end SimpleBank
