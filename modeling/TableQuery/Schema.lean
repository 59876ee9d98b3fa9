/-
Schemas: a table's name and its declared fields, in order.

Wherever a field is named, `pk` stands for the primary key, unless a field
is itself called `pk`.
-/
import TableQuery.Fault

namespace TableQuery

/-- A declared column. -/
structure Field where
  name : String
  type : FieldType
  isKey : Bool
deriving DecidableEq, Repr

structure Schema where
  table : String
  fields : List Field
deriving DecidableEq, Repr

namespace Schema

/-- A table without fields. -/
def ofTable (table : String) : Schema := ⟨table, []⟩

/-- Declares a field after the others. -/
def declare (s : Schema) (name : String) (type : FieldType) : Schema :=
  { s with fields := s.fields ++ [⟨name, type, false⟩] }

/-- Declares the primary key after the others, none of which stays one. -/
def declareKey (s : Schema) (name : String) (type : FieldType) : Schema :=
  { s with
    fields := s.fields.map (fun f => { f with isKey := false }) ++ [⟨name, type, true⟩] }

/-- The first field with exactly that name. -/
def field? (s : Schema) (name : String) : Option Field := s.fields.find? (·.name = name)

def names (s : Schema) : List String := s.fields.map (·.name)

/-- The first field marked as the primary key. -/
def key? (s : Schema) : Option Field := s.fields.find? (·.isKey)

/-- The name that stands for the primary key. -/
def keyAlias : String := "pk"

/-- The field a name stands for: the one so called, else the primary key for
its alias. -/
def lookup? (s : Schema) (name : String) : Option Field :=
  match s.field? name with
  | some f => some f
  | none => if name = keyAlias then s.key? else none

def declares (s : Schema) (name : String) : Bool := (s.lookup? name).isSome

def typeOf? (s : Schema) (name : String) : Option FieldType := (s.lookup? name).map (·.type)

def hasDateParts (s : Schema) (name : String) : Bool :=
  match s.typeOf? name with
  | some t => t.hasDateParts
  | none => false

/-- The field a name stands for, or the fault that there is none. -/
def require (s : Schema) (name : String) : Except Fault Field :=
  match s.lookup? name with
  | some f => .ok f
  | none => .error (.unknownField s.table name)

def requireKey (s : Schema) : Except Fault Field :=
  match s.key? with
  | some f => .ok f
  | none => .error (.noPrimaryKey s.table)

end Schema

end TableQuery
