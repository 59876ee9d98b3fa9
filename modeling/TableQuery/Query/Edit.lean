/-
Builder calls as data: a chain of calls is a list of edits, and the queries
that can be reached are those that lists of edits lead to.
-/
import TableQuery.Query.Basic

namespace TableQuery

/-- One builder call. -/
inductive Edit where
  | filter (field : String) (op : Operator) (operands : List Value)
  | filterBy (verb field : String) (operands : List Value)
  | filterDate (verb field : String) (keywords : List String)
  | filterPart (field : String) (part : DatePart) (op : Operator) (operands : List Value)
  | sortBy (field : String) (direction : Direction) (order : List Value)
  | select (fields : List String)
  | selectEverything
  | clearSelection
  | limit (n : UInt64)
  | offset (n : UInt64)
  | page (n : UInt64)
  | raw (sql : String) (params : List Value)
  | assign (field : String) (v : Value)
  | assignAll (fields : List (String × Value))
  | call (name : String) (args : List Value)
  | callWith (name : String) (keywords : List String)
deriving DecidableEq, Repr

namespace Query

/-- Makes one builder call. -/
def apply (q : Query) : Edit → Except Fault Query
  | .filter field op operands => q.filter field op operands
  | .filterBy verb field operands => q.filterBy verb field operands
  | .filterDate verb field keywords => q.filterDate verb field keywords
  | .filterPart field part op operands => q.filterPart field part op operands
  | .sortBy field direction order => q.sortBy field direction order
  | .select fields => q.select fields
  | .selectEverything => .ok q.selectEverything
  | .clearSelection => .ok q.clearSelection
  | .limit n => q.limit n
  | .offset n => .ok (q.offset n)
  | .page n => q.page n
  | .raw sql params => .ok (q.raw sql params)
  | .assign field v => q.assign field v
  | .assignAll fields => q.assignAll fields
  | .call name args => q.call name args
  | .callWith name keywords => q.callWith name keywords

/-- Makes builder calls one after the other, up to the first that fails. -/
def applyAll (q : Query) : List Edit → Except Fault Query
  | [] => .ok q
  | e :: rest => do (← q.apply e).applyAll rest

end Query

end TableQuery
