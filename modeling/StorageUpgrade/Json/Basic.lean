/-!
# JSON values

A value is kept as it is written: the fields of an object in their order, a repeated name as often
as it stands there, and a number that is no plain integer by its text. What a repeated name or
such a number means is for the reader of a document to say.
-/

namespace StorageUpgrade

inductive Json where
  | null
  | bool (value : Bool)
  /-- A number without fraction and exponent, other than minus zero. -/
  | integer (value : Int)
  /-- Any other number, by its text. -/
  | decimal (text : List Char)
  | string (text : String)
  | array (items : List Json)
  | object (fields : List (String × Json))
  deriving Inhabited

end StorageUpgrade
