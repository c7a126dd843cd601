import Mathlib

structure Account where
  balance : Nat
  nonce : Nat
  deriving DecidableEq, Repr

namespace Account

def credit (amount : Nat) (account : Account) : Account := { account with balance := account.balance + amount }

def debit (amount : Nat) (account : Account) : Account := { account with balance := account.balance - amount }

/-- What the holder of the account does uses up a nonce. -/
def spend (amount : Nat) (account : Account) : Account := ⟨account.balance - amount, account.nonce + 1⟩

end Account

/-- An entry: new money, money that moves, money that is gone, and the settlement of a whole
period, which ends by opening accounts. -/
inductive LedgerEntry (K : Type*)
  | mint (receiver : K) (amount : Nat)
  | transfer (sender receiver : K) (amount : Nat)
  | burn (sender : K) (amount : Nat)
  | settle (charges rewards : List (K × Nat)) (opened : List K) (opening : Nat)

/-- The accounts that are open. -/
abbrev Accounts (K : Type*) := K → Option Account

namespace Accounts

variable {K : Type*} [DecidableEq K]

omit [DecidableEq K] in
def closed : Accounts K := fun _ => none

def change (k : K) (f : Account → Account) (accounts : Accounts K) : Accounts K :=
  Function.update accounts k ((accounts k).map f)

def openAt (k : K) (balance : Nat) (accounts : Accounts K) : Accounts K :=
  Function.update accounts k (some ⟨balance, 0⟩)

def deposit (k : K) (amount : Nat) (accounts : Accounts K) : Accounts K :=
  match accounts k with
  | none => accounts.openAt k amount
  | some _ => accounts.change k (Account.credit amount)

/-- One change for each item. -/
def changeAll (f : Nat → Account → Account) (items : List (K × Nat)) (accounts : Accounts K) : Accounts K :=
  items.foldl (fun accounts item => accounts.change item.1 (f item.2)) accounts

def openAll (balance : Nat) (ks : List K) (accounts : Accounts K) : Accounts K :=
  ks.foldl (fun accounts k => accounts.openAt k balance) accounts

def apply (accounts : Accounts K) : LedgerEntry K → Accounts K
  | .mint receiver amount => accounts.deposit receiver amount
  | .transfer sender receiver amount =>
    (accounts.change sender (Account.spend amount)).change receiver (Account.credit amount)
  | .burn sender amount => accounts.change sender (Account.spend amount)
  | .settle charges rewards opened opening =>
    ((accounts.changeAll Account.debit charges).changeAll Account.credit rewards).openAll opening opened

/-- The accounts after all entries, from none. -/
def replay (entries : List (LedgerEntry K)) : Accounts K := entries.foldl apply closed

variable {accounts : Accounts K} {k l : K} {amount : Nat}

theorem replay_concat (entries : List (LedgerEntry K)) (entry : LedgerEntry K) :
    replay (entries ++ [entry]) = (replay entries).apply entry := List.foldl_concat ..

theorem change_of_ne (f : Account → Account) (different : l ≠ k) : accounts.change k f l = accounts l :=
  Function.update_of_ne different ..

theorem change_self (f : Account → Account) : accounts.change k f k = (accounts k).map f := Function.update_self ..

/-- Changing an account that is not open opens none. -/
theorem change_of_none (f : Account → Account) (missing : accounts l = none) : accounts.change k f l = none := by
  by_cases same : l = k
  · subst same
    rw [change_self, missing]
    rfl
  · rw [change_of_ne f same, missing]

theorem deposit_of_none (missing : accounts k = none) : accounts.deposit k amount = accounts.openAt k amount := by
  rw [deposit, missing]

theorem deposit_of_some {account : Account} (found : accounts k = some account) :
    accounts.deposit k amount = accounts.change k (Account.credit amount) := by
  rw [deposit, found]

section ChangeAll

variable {f : Nat → Account → Account} {items : List (K × Nat)}

theorem changeAll_of_none (missing : accounts k = none) : accounts.changeAll f items k = none := by
  induction items generalizing accounts with
  | nil => exact missing
  | cons item rest ih => exact ih (change_of_none _ missing)

theorem changeAll_of_notMem (absent : k ∉ items.map Prod.fst) : accounts.changeAll f items k = accounts k := by
  induction items generalizing accounts with
  | nil => rfl
  | cons item rest ih =>
    rw [List.map_cons, List.mem_cons, not_or] at absent
    exact (ih absent.2).trans (change_of_ne _ absent.1)

/-- Each account is changed by the one item that names it. -/
theorem changeAll_of_mem (distinct : (items.map Prod.fst).Nodup) (member : (k, amount) ∈ items) :
    accounts.changeAll f items k = (accounts k).map (f amount) := by
  induction items generalizing accounts with
  | nil => cases member
  | cons item rest ih =>
    rw [List.map_cons, List.nodup_cons] at distinct
    rcases List.mem_cons.mp member with rfl | later
    · exact (changeAll_of_notMem distinct.1).trans (change_self _)
    · have other : k ≠ item.1 := by
        rintro rfl
        exact distinct.1 (List.mem_map.mpr ⟨_, later, rfl⟩)
      exact (ih distinct.2 later).trans (congrArg (Option.map (f amount)) (change_of_ne _ other))

end ChangeAll

section OpenAll

variable {balance : Nat} {ks : List K}

theorem openAll_of_notMem (absent : k ∉ ks) : accounts.openAll balance ks k = accounts k := by
  induction ks generalizing accounts with
  | nil => rfl
  | cons l rest ih =>
    rw [List.mem_cons, not_or] at absent
    exact (ih absent.2).trans (Function.update_of_ne absent.1 ..)

theorem openAll_of_mem (member : k ∈ ks) : accounts.openAll balance ks k = some ⟨balance, 0⟩ := by
  induction ks generalizing accounts with
  | nil => cases member
  | cons l rest ih =>
    by_cases later : k ∈ rest
    · exact ih later
    · have here : k = l := (List.mem_cons.mp member).resolve_right later
      subst here
      exact (openAll_of_notMem later).trans (Function.update_self ..)

end OpenAll

end Accounts
