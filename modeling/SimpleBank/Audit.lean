import Mathlib.Data.Multiset.Basic
import Mathlib.Algebra.BigOperators.Group.Multiset.Basic
import SimpleBank.Balances

/-! The audit trail: the entries are those of the transfers, two for each, and
neither is ever changed. -/
namespace SimpleBank
open Library Db

/-- What an entry says: whose account, and how much. -/
def Db.Entry.line (entry : Entry) : Int × Int := (entry.accountID, entry.amount.toInt)

/-- The two entries a transfer stands for. -/
def Db.Transfer.lines (transfer : Transfer) : Multiset (Int × Int) :=
  {(transfer.fromAccountID, -transfer.amount.toInt), (transfer.toAccountID, transfer.amount.toInt)}

/-- Whatever the entries say, the transfers say, and the other way round. -/
def Audited (db : Database) : Prop :=
  (Multiset.ofList (db.entries.rows.map Entry.line)) = (db.transfers.rows.map Transfer.lines).sum

section Audit

variable {deps : Deps} {w : World} {config : ServiceConfig}

theorem Audited.transfer {db db' : Database} (h : Audited db) {arg : TransferTxParams}
    {result : TransferTxResult} (hpositive : 0 < arg.amount)
    (happlied : TransferApplied db arg result db') : Audited db' := by
  obtain ⟨hfrom, hto, hamount⟩ := happlied.transfer
  have hentries : db'.entries.rows = db.entries.rows ++ [result.fromEntry] ++ [result.toEntry] := by
    rw [happlied.database]
    dsimp only
    rw [Table.rows_put_fresh happlied.freshToEntry, Table.rows_put_fresh happlied.freshFromEntry]
  have htransfers : db'.transfers.rows = db.transfers.rows ++ [result.transfer] := by
    rw [happlied.database]
    exact Table.rows_put_fresh happlied.freshTransfer
  have hlines : result.transfer.lines =
      Multiset.ofList [result.fromEntry.line, result.toEntry.line] := by
    simp only [Transfer.lines, Entry.line, hfrom, hto, hamount, happlied.fromEntry,
      happlied.toEntry, toInt_neg_of_pos hpositive]
    rfl
  unfold Audited at h ⊢
  rw [hentries, htransfers]
  simp only [List.append_assoc, List.map_append, List.map_cons, List.map_nil, List.sum_append,
    List.sum_cons, List.sum_nil, add_zero, ← Multiset.coe_add, h, hlines]
  rfl

/-- Rows of the audit trail stay as they are. -/
theorem trail_of_extends {db db' : Database} (hextends : Store.Extends db db') :
    (∀ row ∈ db.entries.rows, row ∈ db'.entries.rows) ∧
      ∀ row ∈ db.transfers.rows, row ∈ db'.transfers.rows := by
  refine ⟨fun row hmem => ?_, fun row hmem => ?_⟩
  · have hfind : db.lookup (.entry row.id) = some (.entry row) := by
      simp [Database.lookup, Table.find?_of_mem hmem]
    obtain ⟨later, hlater, hkeeps⟩ := hextends _ _ hfind
    cases (show later = .entry row from hkeeps)
    obtain ⟨found, hfound, heq⟩ := Option.map_eq_some_iff.mp hlater
    cases heq
    exact (Table.find?_mem hfound).1
  · have hfind : db.lookup (.transfer row.id) = some (.transfer row) := by
      simp [Database.lookup, Table.find?_of_mem hmem]
    obtain ⟨later, hlater, hkeeps⟩ := hextends _ _ hfind
    cases (show later = .transfer row from hkeeps)
    obtain ⟨found, hfound, heq⟩ := Option.map_eq_some_iff.mp hlater
    cases heq
    exact (Table.find?_mem hfound).1

/-- In every run from empty books the entries are exactly the two sides of each
transfer, and no step takes an entry or a transfer back or changes it. -/
theorem audit_trail (htxs : w.txs = .empty) (hentries : w.db.entries = .empty)
    (htransfers : w.db.transfers = .empty)
    (hreach : (service deps).Reachable (.initial w) config) :
    (Multiset.ofList (config.world.db.entries.rows.map Entry.line) =
      (config.world.db.transfers.rows.map Transfer.lines).sum) ∧
    ∀ event next, (service deps).move config event = some next →
      (∀ row ∈ config.world.db.entries.rows, row ∈ next.world.db.entries.rows) ∧
      ∀ row ∈ config.world.db.transfers.rows, row ∈ next.world.db.transfers.rows := by
  refine ⟨?_, fun event next hmove =>
    trail_of_extends ((Regular.reach htxs hreach).extends_move hmove)⟩
  refine database_invariant (P := Audited) htxs ?_ (fun _ _ h => h) ?_ hreach
  · rw [Audited, hentries, htransfers]
    rfl
  · intro config thread job choice exchange db' _ h hchange
    cases hchange with
    | payment payment => exact h.transfer payment.positive payment.applied
    | _ => exact h

theorem audit_trail_sample :
    Multiset.ofList [((1 : Int), (-10 : Int)), (2, 10)] =
      (Sample.paid.world.db.transfers.rows.map Transfer.lines).sum :=
  (show Multiset.ofList (Sample.paid.world.db.entries.rows.map Entry.line) = _ from
    (audit_trail rfl rfl rfl Sample.paid_reachable).1)

end Audit
end SimpleBank
