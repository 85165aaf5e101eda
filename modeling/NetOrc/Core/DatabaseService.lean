import Mathlib.Algebra.Group.Nat.Defs
import Mathlib.Data.List.Basic

/-!
This module contains the persistent flow table. Only the columns that `saveFlow` writes are kept.
-/

namespace NetOrc

inductive SqlValue where
  | integer (n : Int)
  | real (n : Nat)
  deriving DecidableEq, Repr

/--
The IEEE double nearest to an integer between `2 ^ 63` and `2 ^ 64`, ties to even. That sqlite stores this
one is an assumption: some of its versions round otherwise close to a tie.
-/
def nearestDouble (n : Nat) : Nat :=
  if n % 2048 < 1024 ∨ (n % 2048 = 1024 ∧ n / 2048 % 2 = 0) then
    n / 2048 * 2048
  else
    (n / 2048 + 1) * 2048

def sqlLiteral (n : Nat) : SqlValue :=
  if n < 2 ^ 63 then .integer n else .real (nearestDouble n)

structure FlowsRow where
  id : Nat
  dpid : SqlValue
  inPort : SqlValue
  actionPort : SqlValue
  deriving DecidableEq, Repr

structure SaveFlow where
  dpid : UInt64
  inPort : UInt32
  actionPort : Int32
  deriving DecidableEq, Repr

/--
The table `flows`, the next id of its primary key, and the `saveFlow` calls made so far.
-/
structure DatabaseService where
  rows : List FlowsRow := []
  nextId : Nat := 1
  calls : List SaveFlow := []
  deriving DecidableEq, Repr

namespace DatabaseService

def rowOf (id : Nat) (call : SaveFlow) : FlowsRow where
  id := id
  dpid := sqlLiteral call.dpid.toNat
  inPort := sqlLiteral call.inPort.toNat
  actionPort := .integer call.actionPort.toInt

def saveFlow (db : DatabaseService) (fails : Bool) (call : SaveFlow) : DatabaseService :=
  if fails then
    { db with calls := db.calls ++ [call] }
  else
    { rows := db.rows ++ [rowOf db.nextId call]
      nextId := db.nextId + 1
      calls := db.calls ++ [call] }

@[simp]
theorem saveFlow_calls (db : DatabaseService) (fails : Bool) (call : SaveFlow) :
    (db.saveFlow fails call).calls = db.calls ++ [call] := by
  unfold saveFlow
  split <;> rfl

end DatabaseService

structure IDatabaseService (σ : Type) where
  saveFlow : UInt64 → UInt32 → Int32 → σ → σ

end NetOrc
