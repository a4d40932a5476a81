/-!
# JSON values

A JSON document as a value. An object keeps its members in the order in which they are written, a
name that is written twice included. A string is `none` where its escapes name no Unicode text,
which is the case when half of a surrogate pair stands alone.
-/

namespace Activation.Json

/-- A number as it is written: an integer literal, or a literal with a fraction, an exponent or a
negative zero, which stands for no integer. -/
inductive Number where
  | integer (value : Int)
  | real
deriving DecidableEq, Repr

inductive Value where
  | null
  | bool (value : Bool)
  | number (value : Number)
  | string (text : Option String)
  | array (items : List Value)
  | object (members : List (Option String × Value))
deriving Repr, Inhabited

end Activation.Json
