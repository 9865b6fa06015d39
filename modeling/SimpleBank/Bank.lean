import Mathlib.Logic.Function.Basic
import SimpleBank.Library.Machine
import SimpleBank.Util

/-! What the service is for: a bank whose members hold accounts and pay each
other, with no requests, tables or transactions in sight. -/
namespace SimpleBank
open Library

structure Member where
  fullName : String
  email : String
  verified : Bool

structure Holding where
  owner : String
  currency : String
  balance : Int

structure Remittance where
  fromID : Int
  toID : Int
  amount : Int
  deriving DecidableEq

/-- What a member is sent, to show that the address is theirs. -/
structure Invitation where
  username : String
  code : String
  used : Bool

structure Bank where
  members : String → Option Member
  holdings : Int → Option Holding
  remittances : List Remittance
  invitations : Int → Option Invitation

/-- What a remittance adds to the balance of an account. -/
def Remittance.share (accountID : Int) (remittance : Remittance) : Int :=
  (if accountID = remittance.toID then remittance.amount else 0) -
    if accountID = remittance.fromID then remittance.amount else 0

/-- A member by new values, where there are any. -/
def Member.edited (member : Member) (fullName email : Option String) : Member :=
  { member with
    fullName := fullName.getD member.fullName
    email := email.getD member.email }

namespace Bank

/-- What can happen to a bank, and at whose instance. -/
inductive Operation where
  | register (username fullName email : String)
  | edit (caller role username : String) (fullName email : Option String)
  | invite (id : Int) (username code : String)
  | verify (id : Int) (code : String)
  | openAccount (id : Int) (caller currency : String)
  | pay (caller : String) (remittance : Remittance)
  deriving DecidableEq

/-- Nobody but `username` has this email. -/
def EmailFree (bank : Bank) (username email : String) : Prop :=
  ∀ other member, bank.members other = some member → member.email = email → other = username

def Allows (bank : Bank) : Operation → Prop
  | .register username _ email => bank.members username = none ∧ bank.EmailFree username email
  | .edit caller role username _ email => (role = Util.bankerRole ∨ caller = username) ∧
      (bank.members username).isSome = true ∧ ∀ new, email = some new → bank.EmailFree username new
  | .invite id username _ => bank.invitations id = none ∧ (bank.members username).isSome = true
  | .verify id code => ∃ invitation, bank.invitations id = some invitation ∧
      invitation.code = code ∧ invitation.used = false ∧
      (bank.members invitation.username).isSome = true
  | .openAccount id caller currency => bank.holdings id = none ∧
      (bank.members caller).isSome = true ∧ Util.isSupportedCurrency currency = true ∧
      ∀ other holding, bank.holdings other = some holding →
        ¬(holding.owner = caller ∧ holding.currency = currency)
  | .pay caller remittance => 0 < remittance.amount ∧ ∃ fromHolding toHolding,
      bank.holdings remittance.fromID = some fromHolding ∧
      bank.holdings remittance.toID = some toHolding ∧ fromHolding.owner = caller ∧
      fromHolding.currency = toHolding.currency

def after (operation : Operation) (bank : Bank) : Bank :=
  match operation with
  | .register username fullName email =>
    { bank with members := Function.update bank.members username (some ⟨fullName, email, false⟩) }
  | .edit _ _ username fullName email =>
    { bank with
      members := Function.update bank.members username
        ((bank.members username).map fun member => member.edited fullName email) }
  | .invite id username code =>
    { bank with invitations := Function.update bank.invitations id (some ⟨username, code, false⟩) }
  | .verify id _ =>
    match bank.invitations id with
    | none => bank
    | some invitation =>
      { bank with
        invitations := Function.update bank.invitations id (some { invitation with used := true })
        members := Function.update bank.members invitation.username
          ((bank.members invitation.username).map fun member => { member with verified := true }) }
  | .openAccount id caller currency =>
    { bank with holdings := Function.update bank.holdings id (some ⟨caller, currency, 0⟩) }
  | .pay _ remittance =>
    { bank with
      holdings := fun id => (bank.holdings id).map fun holding =>
        { holding with balance := holding.balance + remittance.share id }
      remittances := bank.remittances ++ [remittance] }

def machine : Machine Bank Operation := ⟨Allows, after⟩

variable {start bank : Bank} {operations : List Operation}

/-- What an operation adds to the balance of an account. -/
def Operation.share (accountID : Int) : Operation → Int
  | .pay _ remittance => remittance.share accountID
  | _ => 0

/-- The balance of an account, or nothing. -/
def balance (id : Int) (bank : Bank) : Int := ((bank.holdings id).map Holding.balance).getD 0

theorem balance_after {operation : Operation} (h : bank.Allows operation) (id : Int) :
    balance id (after operation bank) = balance id bank + operation.share id := by
  cases operation with
  | register _ _ _ | edit _ _ _ _ _ | invite _ _ _ => exact (Int.add_zero _).symm
  | verify id code =>
    obtain ⟨invitation, hinvitation, -⟩ := h
    simp [balance, after, hinvitation, Operation.share]
  | openAccount opened caller currency =>
    obtain ⟨hnone, -⟩ := h
    by_cases heq : id = opened
    · subst heq
      simp [balance, after, hnone, Operation.share]
    · simp [balance, after, Function.update_of_ne heq, Operation.share]
  | pay caller remittance =>
    obtain ⟨-, fromHolding, toHolding, hfrom, hto, -⟩ := h
    cases hholding : bank.holdings id with
    | some holding => simp [balance, after, hholding, Operation.share]
    | none =>
      have hfromID : id ≠ remittance.fromID := by
        rintro rfl
        cases hholding.symm.trans hfrom
      have htoID : id ≠ remittance.toID := by
        rintro rfl
        cases hholding.symm.trans hto
      simp [balance, after, hholding, Operation.share, Remittance.share, hfromID, htoID]

/-- A balance is what it was and what has been paid in and out since. -/
theorem balance_eq (h : machine.Performs start operations bank) (id : Int) :
    balance id bank = balance id start + (operations.map (Operation.share id)).sum :=
  h.sum_eq (P := fun _ => True) trivial (fun _ _ _ _ => trivial)
    fun _ _ _ hallows => balance_after hallows id

/-- An account keeps its owner and its currency. -/
theorem kept (h : machine.Performs start operations bank) {id : Int} {holding : Holding}
    (hstart : start.holdings id = some holding) : ∃ current, bank.holdings id = some current ∧
      current.owner = holding.owner ∧ current.currency = holding.currency := by
  refine h.invariant (P := fun _ bank => ∃ current, bank.holdings id = some current ∧
    current.owner = holding.owner ∧ current.currency = holding.currency)
    ⟨holding, hstart, rfl, rfl⟩ ?_
  rintro _ bank operation ⟨current, hcurrent, hkept⟩ hallows
  cases operation with
  | register _ _ _ | edit _ _ _ _ _ | invite _ _ _ => exact ⟨current, hcurrent, hkept⟩
  | verify link code =>
    obtain ⟨invitation, hinvitation, -⟩ := hallows
    refine ⟨current, ?_, hkept⟩
    simpa [machine, after, hinvitation] using hcurrent
  | openAccount opened caller currency =>
    have hne : id ≠ opened := by
      rintro rfl
      cases hcurrent.symm.trans hallows.1
    exact ⟨current, (Function.update_of_ne hne _ _).trans hcurrent, hkept⟩
  | pay caller remittance =>
    refine ⟨{ current with balance := current.balance + remittance.share id }, ?_, hkept⟩
    simp only [machine, after, hcurrent, Option.map_some]

end Bank
end SimpleBank
