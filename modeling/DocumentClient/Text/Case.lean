/-!
# Letter case

Names that do not depend on case are kept in lower case. Only the letters from `A` to `Z` have
another case here.
-/

set_option autoImplicit false

namespace DocumentClient.Text

def lowerCase (text : String) : String :=
  String.ofList (text.toList.map Char.toLower)

end DocumentClient.Text
