/-
A table of two columns in SQLite, `t (a UNIQUE, b NOT NULL)`, and the few
statements run on it.

The columns have no type of their own, so cells are kept as they are bound.
A missing value is looked at before a duplicate one, and nulls never
collide. A statement of the wrong number of parameters, or one that cannot
be prepared, has no effect; a batch keeps the effect of the statements
before the one that failed.
-/
import TableQuery.Sqlite.Cell
import TableQuery.Sqlite.Channel

namespace TableQuery.Sqlite

/-- A statement on the table, with the values for its placeholders. -/
inductive PairStatement where
  /-- `INSERT INTO t VALUES (?, ?)` -/
  | insert (params : List Value)
  /-- `DELETE FROM t WHERE b = ?` -/
  | delete (b : Value)
  /-- `SELECT a, b FROM t ORDER BY rowid` -/
  | select
  /-- `DELETE FROM missing` -/
  | missing
  /-- `BROKEN` -/
  | broken
deriving DecidableEq, Repr

/-- A statement that is prepared, with cells for its placeholders. -/
inductive PairAction where
  | insert (a b : Cell)
  | delete (b : Cell)
  | select
deriving DecidableEq, Repr

/-- The rows, oldest first. -/
abbrev PairTable := List (Cell × Cell)

/-- What an action comes to: the rows it gives, the number it affects, and
the table after it. -/
structure PairResult where
  rows : List Row
  affected : Nat
  table : PairTable
deriving DecidableEq, Repr

namespace PairStatement

def missingTable : Failure := .engine 1 "no such table: missing"
def notAStatement : Failure := .refused "near \"BROKEN\": syntax error" "BROKEN" 0

/-- Prepares a statement and binds its values. -/
def prepare : PairStatement → Except Failure PairAction
  | insert [a, b] => .ok (.insert (Cell.bound a) (Cell.bound b))
  | insert params => .error (.parameterCount params.length 2)
  | delete b => .ok (.delete (Cell.bound b))
  | select => .ok .select
  | missing => .error missingTable
  | broken => .error notAStatement

end PairStatement

namespace PairTable

def notNullFailed : Failure := .engine 1299 "NOT NULL constraint failed: t.b"
def uniqueFailed : Failure := .engine 2067 "UNIQUE constraint failed: t.a"

/-- Inserts a row, if its second cell is there and its first is new. -/
def insert (t : PairTable) (a b : Cell) : Except Failure PairTable :=
  if b = .null then .error notNullFailed
  else if t.any fun row => row.1.equal a then .error uniqueFailed
  else .ok (t ++ [(a, b)])

/-- Runs an action to its end. -/
def run (t : PairTable) : PairAction → Except Failure PairResult
  | .insert a b => (t.insert a b).map fun t => ⟨[], 1, t⟩
  | .delete b =>
    let kept := t.filter fun row => !row.2.equal b
    .ok ⟨[], t.length - kept.length, kept⟩
  | .select => .ok ⟨t.map fun (a, b) => ⟨["a", "b"], [a.toValue, b.toValue]⟩, 0, t⟩

/-- Executes a statement for the number of rows it affects. -/
def execute (t : PairTable) (s : PairStatement) : Except Fault Nat × PairTable :=
  match s.prepare >>= t.run with
  | .ok r => (.ok r.affected, r.table)
  | .error f => (.error f.toFault, t)

/-- The steps of an action, and the table after them. -/
def steps (t : PairTable) (action : PairAction) : List Step × PairTable :=
  match t.run action with
  | .ok r => (r.rows.map .ok, r.table)
  | .error f => ([.error f.toFault], t)

/-- Fetches the rows of a statement. -/
def fetch (t : PairTable) (s : PairStatement) (limitHint : Option UInt64) :
    Except Fault Channel × PairTable :=
  match s.prepare with
  | .ok action => (Channel.fetch (.ok (t.steps action).1) limitHint, (t.steps action).2)
  | .error f => (Channel.fetch (.error f) limitHint, t)

/-- Fetches a statement and reads all it gives; a failure of either comes last. -/
def readAll (t : PairTable) (s : PairStatement) : List Step × PairTable :=
  match t.fetch s none with
  | (.ok channel, t) => (channel.drainAll, t)
  | (.error f, t) => ([.error f], t)

/-- `DELETE FROM t; DELETE FROM missing`: the first statement stays done. -/
def executeBatchMissing (_ : PairTable) : Except Fault Unit × PairTable :=
  (.error PairStatement.missingTable.toFault, [])

end PairTable

/-- The rows of a selection of bound values, `SELECT ? AS c0, ? AS c1` and so
on for each, as a reader gets them who takes at most so many. -/
def selectValues (rows : List (List Value)) (limitHint : Option UInt64) (most : Option Nat) :
    List Step :=
  let columns := (List.range ((rows.head?.map List.length).getD 0)).map fun i => s!"c{i}"
  let steps := rows.map fun vs => .ok ⟨columns, vs.map fun v => (Cell.bound v).toValue⟩
  match Channel.fetch (.ok steps) limitHint, most with
  | .ok channel, some n => channel.drain n
  | .ok channel, none => channel.drainAll
  | .error f, _ => [.error f]

end TableQuery.Sqlite
