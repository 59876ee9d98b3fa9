/-
Column types of PostgreSQL.
-/
namespace TableQuery.Postgres

inductive ColumnType where
  | bool | int2 | int4 | int8 | float4 | float8 | text | varchar | bpchar | name | bytea
  | date | timestamp | timestamptz | uuid | json | numeric | oid | time | char
deriving DecidableEq, Repr

namespace ColumnType

def all : List ColumnType :=
  [bool, int2, int4, int8, float4, float8, text, varchar, bpchar, name, bytea,
    date, timestamp, timestamptz, uuid, json, numeric, oid, time, char]

theorem mem_all (t : ColumnType) : t ∈ all := by cases t <;> decide

def label : ColumnType → String
  | bool => "bool"
  | int2 => "int2"
  | int4 => "int4"
  | int8 => "int8"
  | float4 => "float4"
  | float8 => "float8"
  | text => "text"
  | varchar => "varchar"
  | bpchar => "bpchar"
  | name => "name"
  | bytea => "bytea"
  | date => "date"
  | timestamp => "timestamp"
  | timestamptz => "timestamptz"
  | uuid => "uuid"
  | json => "json"
  | numeric => "numeric"
  | oid => "oid"
  | time => "time"
  | char => "char"

def ofLabel? (label : String) : Option ColumnType := all.find? (·.label = label)

end ColumnType

end TableQuery.Postgres
