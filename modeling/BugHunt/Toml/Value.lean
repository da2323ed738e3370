/-!
The values of TOML documents.
-/

namespace BugHunt.Toml

/-- A value. A date or time is kept as its canonical text; no number with a fraction is ever
looked into. -/
inductive Value where
  | string (text : String)
  | integer (n : Int)
  | float
  | boolean (b : Bool)
  | moment (text : String)
  | array (items : List Value)
  | table (entries : List (String × Value))
  deriving Repr, Inhabited

end BugHunt.Toml
