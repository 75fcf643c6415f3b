import Mathlib
import Exocore.LibComparison
import Exocore.LibFloat32
import Exocore.StoreSearch

/-! The values that results are ordered by, with all that they carry, and their comparison. -/
namespace Exocore.Store.OrderingValues

open Comparison Float32Bits

structure Timestamp where
  seconds : ℤ
  nanos : ℤ
deriving DecidableEq

inductive Value where
  | float (v : F32)
  | uint64 (v : Fin (2^64))
  | date (v : Timestamp)
  | min (v : Bool)
  | max (v : Bool)

structure OrderingValue where
  value : Option Value
  operationId : OperationId

structure OrderingValueWrapper where
  value : OrderingValue
  reverse : Bool
  ignore : Bool

/-- The bounds that a page has, of which each may be missing. -/
structure Paging where
  afterOrderingValue : Option OrderingValue
  beforeOrderingValue : Option OrderingValue

/-! ## The derived equality -/

def Value.eq : Value → Value → Bool
  | .float a, .float b => a.eq b
  | .uint64 a, .uint64 b => a = b
  | .date a, .date b => a = b
  | .min a, .min b => a = b
  | .max a, .max b => a = b
  | _, _ => false

def valueEq : Option Value → Option Value → Bool
  | some a, some b => a.eq b
  | none, none => true
  | _, _ => false

def OrderingValue.eq (self other : OrderingValue) : Bool :=
  valueEq self.value other.value && self.operationId = other.operationId

def OrderingValueWrapper.eq (self other : OrderingValueWrapper) : Bool :=
  self.value.eq other.value && self.reverse = other.reverse && self.ignore = other.ignore

/-! ## The comparison -/

namespace OrderingValue

def partialCmp (self other : OrderingValue) : Option Ordering :=
  if valueEq self.value other.value then some (cmp self.operationId other.operationId)
  else match self.value, other.value with
    | some (.min _), _ => some .lt
    | _, some (.min _) => some .gt
    | some (.max _), _ => some .gt
    | _, some (.max _) => some .lt
    | some (.float a), some (.float b) => a.partialCmp b
    | some (.uint64 a), some (.uint64 b) => some (cmp a b)
    | some (.date a), some (.date b) =>
      if a.seconds ≠ b.seconds then some (cmp a.seconds b.seconds)
      else some (cmp a.nanos b.nanos)
    | _, _ => none

def isAfter (self other : OrderingValue) : Bool := self.partialCmp other = some .gt

def isBefore (self other : OrderingValue) : Bool := self.partialCmp other = some .lt

def isWithinPageBound (self : OrderingValue) (page : Paging) : Bool :=
  page.beforeOrderingValue.all (fun before => self.isBefore before) &&
    page.afterOrderingValue.all (fun after => self.isAfter after)

end OrderingValue

namespace OrderingValueWrapper

/-- None where the values are expected to be comparable and are not, which panics. -/
def cmp (self other : OrderingValueWrapper) : Option Ordering :=
  -- an ignored result is less than any other, unless both are
  if self.ignore && other.ignore then some .eq
  else if self.ignore then some .lt
  else if other.ignore then some .gt
  else (self.value.partialCmp other.value).map fun o => if self.reverse then o.swap else o

def isWithinBound (self : OrderingValueWrapper) (lower higher : OrderingValue) : Bool :=
  self.value.isAfter lower && self.value.isBefore higher

end OrderingValueWrapper

def valueFromU64 (value : Fin (2^64)) (operationId : OperationId) : OrderingValue :=
  ⟨some (.uint64 value), operationId⟩

def valueFromF32 (value : F32) (operationId : OperationId) : OrderingValue :=
  ⟨some (.float value), operationId⟩

def valueMax : OrderingValue := ⟨some (.max true), 0⟩

def valueMin : OrderingValue := ⟨some (.min true), 0⟩

/-! ## The order of the values -/

inductive Kind where
  | float
  | uint64
  | date

/-- A number that compares with the others of its kind, or one of the two ends of each kind. -/
def Value.IsOf (kind : Kind) : Value → Prop
  | .float v => kind = .float ∧ v.isNan = false
  | .uint64 _ => kind = .uint64
  | .date _ => kind = .date
  | .min _ | .max _ => True

/-- Where a number is among those of its kind: a date by its seconds first. -/
abbrev Place := ℤ ×ₗ ℤ

def Value.place : Value → WithBot (WithTop Place)
  | .float v => ((toLex (v.value, 0) : Place) : WithTop Place)
  | .uint64 v => ((toLex ((v.val : ℤ), 0) : Place) : WithTop Place)
  | .date v => ((toLex (v.seconds, v.nanos) : Place) : WithTop Place)
  | .min _ => ⊥
  | .max _ => ⊤

/-- The order that the values are meant to have: the numbers between the two ends, and equal ones
by their operations. -/
def OrderingValue.place (v : OrderingValue) : Search.OrderingValue (WithBot (WithTop Place)) :=
  toLex ((v.value.map Value.place).getD ⊥, v.operationId)

end Exocore.Store.OrderingValues
