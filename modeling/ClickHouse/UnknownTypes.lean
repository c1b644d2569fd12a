import ClickHouse.FactoryOutcomes
import ClickHouse.TypeNames

/-!
# Unknown type names

`ValidateAST` looks at the root of a type only.  An unknown name deeper in a
type is read as `Nothing`: the factory never looks at the name of an element
but to put it into the text of an exception.  Such a type is refused only for
another reason.
-/

namespace ClickHouse

open Kit List TypeAst

section Factory

variable [Hashing]

end Factory

end ClickHouse
