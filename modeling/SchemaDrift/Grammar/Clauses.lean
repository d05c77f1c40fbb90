import SchemaDrift.Reader
import SchemaDrift.Schema.Object

/-!
What a dialect adds to the common grammar. Each reader is asked where a clause begins and answers
nothing for a clause that is not its own.
-/

namespace SchemaDrift.Grammar

open Reader

/-- `createOption` stands between `CREATE` and the type of the object, `createForm` reads objects
that only this dialect has, `tableElement` stands among the columns of a table, and the others
after what they are about. -/
structure Clauses where
  createOption : Reader Bool
  createForm : Reader Object
  tableElement : Table → Reader (Option Table)
  tableClause : Table → Reader (Option Table)
  columnClause : Column → Reader (Option Column)
  indexClause : Index → Reader (Option Index)

def Clauses.common : Clauses where
  createOption := pure false
  createForm := fail
  tableElement := fun _ => pure none
  tableClause := fun _ => pure none
  columnClause := fun _ => pure none
  indexClause := fun _ => pure none

end SchemaDrift.Grammar
