import Mathlib.Data.List.Perm.Basic
import Mathlib.Data.Rat.Floor

universe u v

namespace Harness.Foundation

inductive JsNumber
  | nan
  | negInfinity
  | infinity
  | finite (value : Rat)
  deriving DecidableEq, Repr

def truncate (value : Rat) : Int := value.num.tdiv value.den

/-- A negative start counts from the end, and every start is brought into the list. -/
def actualStart (length : Nat) : JsNumber → Nat
  | .nan => 0
  | .negInfinity => 0
  | .infinity => length
  | .finite value =>
    let offset := truncate value
    if offset < 0 then (max (length + offset) 0).toNat else min offset.toNat length

def actualDeleteCount (remaining : Nat) : JsNumber → Nat
  | .nan => 0
  | .negInfinity => 0
  | .infinity => remaining
  | .finite value => min (truncate value).toNat remaining

section Lists

variable {α : Type u} {β : Type v}

def toSpliced (items : List α) (start count : Nat) (inserted : List α) : List α :=
  items.take start ++ inserted ++ items.drop (start + count)

def removedBy (items : List α) (start count : Nat) : List α := (items.drop start).take count

theorem map_toSpliced (f : α → β) (items : List α) (start count : Nat) (inserted : List α) :
    (toSpliced items start count inserted).map f =
      toSpliced (items.map f) start count (inserted.map f) := by
  simp only [toSpliced, List.map_append, List.map_take, List.map_drop]

theorem map_removedBy (f : α → β) (items : List α) (start count : Nat) :
    (removedBy items start count).map f = removedBy (items.map f) start count := by
  simp only [removedBy, List.map_take, List.map_drop]

theorem take_removedBy_drop (items : List α) (start count : Nat) :
    items.take start ++ removedBy items start count ++ items.drop (start + count) = items := by
  rw [List.append_assoc, removedBy, ← List.drop_drop, List.take_append_drop,
    List.take_append_drop]

theorem toSpliced_perm (items : List α) (start count : Nat) (inserted : List α) :
    (toSpliced items start count inserted ++ removedBy items start count).Perm
      (items ++ inserted) := by
  classical
  rw [List.perm_iff_count]
  intro item
  have hcount := congrArg (List.count item) (take_removedBy_drop items start count)
  simp only [toSpliced, List.count_append] at hcount ⊢
  omega

end Lists

end Harness.Foundation
