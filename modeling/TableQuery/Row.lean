/-
Rows, and hydration: building something from a whole row.

A value can be read in place or moved out. Moving leaves null behind, also
when the reading then fails, and touches no other place. Hydration of
several values moves them out one after the other and stops at the first
that cannot be read.
-/
import TableQuery.Decoder

namespace TableQuery

/-- One result row: the columns' names and a value for each. -/
structure Row where
  columns : List String
  values : List Value
deriving DecidableEq, Repr

namespace Row

/-- The place of the first column of that name. -/
def placeOf (r : Row) (column : String) : Except MappingFault Nat :=
  match r.columns.findIdx? (· = column) with
  | some i => .ok i
  | none => .error (.noColumn column)

/-- The value in the first column of that name. -/
def value? (r : Row) (column : String) : Option Value :=
  match r.placeOf column with
  | .ok i => r.values[i]?
  | .error _ => none

variable {α : Type}

/-- Reads the value at a place. -/
def readAt (d : Decoder α) (r : Row) (i : Nat) : Except MappingFault α :=
  match r.values[i]? with
  | some v => (d v).mapError (.atIndex i)
  | none => .error (.indexOutOfRange i)

/-- Reads the value in the first column of that name. -/
def read (d : Decoder α) (r : Row) (column : String) : Except MappingFault α := do
  r.readAt d (← r.placeOf column)

/-- Moves the value at a place out and reads it. -/
def moveOutAt (d : Decoder α) (r : Row) (i : Nat) : Except MappingFault α × Row :=
  match r.values[i]? with
  | some v => (d v, { r with values := r.values.set i .null })
  | none => (.error (.indexOutOfRange i), r)

/-- Moves the value in the first column of that name out and reads it. -/
def moveOut (d : Decoder α) (r : Row) (column : String) : Except MappingFault α × Row :=
  match r.placeOf column with
  | .ok i =>
    let (result, r') := r.moveOutAt d i
    (result.mapError (.inColumn column), r')
  | .error e => (.error e, r)

end Row

/-- Builds an `α` from a whole row. -/
abbrev Hydrator (α : Type) := Row → Except Fault α

namespace Hydrator

variable {α : Type}

/-- The row as it is. -/
def row : Hydrator Row := .ok

/-- The row's values, in the order of the projection. -/
def values : Hydrator (List Value) := fun r => .ok r.values

/-- The first value of the row. -/
def first (d : Decoder α) : Hydrator α := fun r =>
  match r.values with
  | v :: _ => (d v).mapError .mapping
  | [] => .error (.mapping .emptyRow)

/-- Moves values out of a row, one after the other, each in its own way. -/
def moveOutEach {ι : Type} (take : Row → ι → Except MappingFault α × Row) :
    List ι → Row → Except MappingFault (List α)
  | [], _ => .ok []
  | i :: rest, r =>
    match take r i with
    | (.error e, _) => .error e
    | (.ok a, r') => (moveOutEach take rest r').map (a :: ·)

/-- Reads as many leading values as there are decoders. -/
def tuple (decoders : List (Decoder α)) : Hydrator (List α) := fun r =>
  let places := (List.range decoders.length).zip decoders
  (moveOutEach (fun r (i, d) => r.moveOutAt d i) places r).mapError .mapping

/-- Reads the named columns, each with its decoder. -/
def record (fields : List (String × Decoder α)) : Hydrator (List α) := fun r =>
  (moveOutEach (fun r (column, d) => r.moveOut d column) fields r).mapError .mapping

end Hydrator

end TableQuery
