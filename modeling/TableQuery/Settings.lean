/-
Settings that queries run with.
-/
import TableQuery.Sql.Dialect

namespace TableQuery

structure Settings where
  /-- Takes the place of the dialect that storage reports. -/
  dialect : Option Dialect
  /-- Rows a statement when walking a whole result. -/
  chunkSize : UInt64
deriving DecidableEq, Repr

namespace Settings

def default : Settings := ⟨none, 5000⟩

def setDialect (s : Settings) (d : Dialect) : Settings := { s with dialect := some d }

/-- Zero counts as one. -/
def setChunkSize (s : Settings) (n : UInt64) : Settings := { s with chunkSize := max n 1 }

end Settings

end TableQuery
