/-
One exchange with a PostgreSQL server: a statement with its parameters, and
what the server has to say to it.

The server first says which types the parameters have. Their number and then
each value is checked before anything is sent. Rows are decoded one by one
as they are pulled; a failure that the server reports after its rows comes
after them, and is not seen by a reader who has the rows asked for.
-/
import TableQuery.Postgres.Wire
import TableQuery.Storage

namespace TableQuery.Postgres

/-- The octets of a cell; null has none. -/
abbrev WireCell := Option (List UInt8)

/-- An error as the server reports it. -/
structure ServerError where
  code : String
  text : String
deriving DecidableEq, Repr

/-- Where an exchange goes wrong. -/
inductive Breakdown where
  /-- The statement is refused. -/
  | atPrepare (e : ServerError)
  /-- The parameters are refused, before any row. -/
  | atBind (e : ServerError)
  /-- An error follows the rows. -/
  | afterRows (e : ServerError)
  /-- The connection is closed after the rows. -/
  | hangup
deriving DecidableEq, Repr

/-- What the server will say. -/
structure Reply where
  paramTypes : List ColumnType
  columns : List (String × ColumnType)
  rows : List (List WireCell)
  /-- What the server calls the completed command. -/
  tag : String
  breakdown : Option Breakdown
deriving DecidableEq, Repr

/-- The category that the first two characters of an SQLSTATE stand for. -/
def kindOfState (code : String) : FailureKind :=
  match code.toList.take 2 with
  | ['2', '3'] => .constraint
  | ['4', '2'] => .syntaxError
  | ['0', '8'] => .connectivity
  | _ => .other

def ServerError.toFault (e : ServerError) : Fault :=
  .execution ⟨kindOfState e.code, some e.code, e.text⟩

def connectionClosed : Fault := .execution ⟨.connectivity, none, "connection closed"⟩

def parameterCountFault (expected got : Nat) : Fault :=
  .execution ⟨.other, none, s!"expected {expected} parameters but got {got}"⟩

def serializeFault (index : Nat) : Fault :=
  .execution ⟨.other, none, s!"error serializing parameter {index}"⟩

/-- Writes parameters for their types, counted from `index`. -/
def encodeAll : Nat → List (ColumnType × Value) → Except Fault (List WireCell)
  | _, [] => .ok []
  | index, (type, v) :: rest =>
    match encode type v with
    | .error _ => .error (serializeFault index)
    | .ok cell => (encodeAll (index + 1) rest).map (cell :: ·)

/-- The parameters as they are sent. -/
def Reply.bind (r : Reply) (params : List Value) : Except Fault (List WireCell) :=
  if params.length ≠ r.paramTypes.length then
    .error (parameterCountFault r.paramTypes.length params.length)
  else encodeAll 0 (r.paramTypes.zip params)

/-- Sends a statement: what the server received of the parameters, if they
came to it, and whether it goes on to its rows. -/
def Reply.send (r : Reply) (params : List Value) : Option (List WireCell) × Except Fault Unit :=
  match r.breakdown with
  | some (.atPrepare e) => (none, .error e.toFault)
  | breakdown =>
    match r.bind params with
    | .error f => (none, .error f)
    | .ok cells =>
      match breakdown with
      | some (.atBind e) => (some cells, .error e.toFault)
      | _ => (some cells, .ok ())

/-- What comes after the rows, if not their plain end. -/
def Reply.afterRows (r : Reply) : Option Fault :=
  match r.breakdown with
  | some (.afterRows e) => some e.toFault
  | some .hangup => some connectionClosed
  | _ => none

/-- The values of a row. -/
def decodeRow : Nat → List (ColumnType × WireCell) → Except ReadFault (List Value)
  | _, [] => .ok []
  | index, (type, cell) :: rest => do
    let v ← decode type index cell
    let vs ← decodeRow (index + 1) rest
    pure (v :: vs)

/-- What the pulls of a reader come to who takes no more than the hint. -/
def Reply.feed (r : Reply) (limitHint : Option UInt64) : Feed :=
  let rows := r.rows.map fun cells =>
    match decodeRow 0 ((r.columns.map (·.2)).zip cells) with
    | .ok vs => Outcome.ok vs
    | .error f => .failed f.toFault
  let ending := match r.afterRows with
    | some f => [Outcome.failed f]
    | none => []
  let pulls := rows ++ ending
  { columns := r.columns.map (·.1)
    pulls := match limitHint with
      | some hint => pulls.take hint.toNat
      | none => pulls }

/-- The rows up to the first failure, which is kept as the last item. -/
def readAll (columns : List String) : List (Outcome (List Value)) → List (Except Fault Row)
  | [] => []
  | .ok vs :: rest => .ok ⟨columns, vs⟩ :: readAll columns rest
  | .failed f :: _ => [.error f]
  | .stalled :: _ => []

/-- The number of rows that a command's tag ends with, or zero. -/
def affectedOfTag (tag : String) : UInt64 :=
  let lastWord := (tag.toList.reverse.takeWhile (· ≠ ' ')).reverse
  (Text.Decimal.readUInt64? lastWord).getD 0

/-- Fetches the rows of a statement: the parameters that the server received,
and the feed. -/
def Reply.fetch (r : Reply) (params : List Value) (limitHint : Option UInt64) :
    Option (List WireCell) × Except Fault Feed :=
  let (bound, sent) := r.send params
  (bound, sent.map fun _ => r.feed limitHint)

/-- Executes a statement: the parameters that the server received, and the
number of affected rows. -/
def Reply.execute (r : Reply) (params : List Value) :
    Option (List WireCell) × Except Fault UInt64 :=
  let (bound, sent) := r.send params
  (bound, do
    sent
    match r.afterRows with
    | some f => .error f
    | none => pure (affectedOfTag r.tag))

end TableQuery.Postgres
