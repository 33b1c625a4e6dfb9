import Relay.Number.Binary64

/-!
Values of records and the shapes that they have. A shape says which JSON texts are read and what is
written; the fields of a record have an order, names, and perhaps values to take when they are
missing.
-/

namespace Relay

/-- A value with a shape. -/
inductive Value where
  | absent
  | text (s : String)
  | number (n : Int)
  | real (x : Binary64)
  | flag (b : Bool)
  | list (items : List Value)
  /-- A record, its fields in order. -/
  | record (fields : List (String × Value))
deriving Inhabited

mutual

/-- What values of a field or payload look like. -/
inductive Shape where
  | text
  /-- A whole number from `low` to `high`. -/
  | number (low high : Int)
  | real
  | flag
  /-- A value of this shape, or none. -/
  | optional (s : Shape)
  | list (s : Shape)
  /-- A record. If it is lenient, a list that is too short takes the missing fields' values. -/
  | record (lenient : Bool) (fields : List Field)

/-- A field of a record. -/
inductive Field where
  /-- A field with its name, its shape, and its value where it is missing. -/
  | mk (name : String) (shape : Shape) (missing : Option Value)

end

def Field.name : Field → String
  | mk name _ _ => name

/-- The value of a field that is missing. -/
def Field.missing : Field → Option Value
  | mk _ _ missing => missing

namespace Shape

/-- Natural numbers of 32 bits. -/
def word32 : Shape := number 0 (Int.pow 2 32 - 1)

/-- Natural numbers of 64 bits. -/
def word64 : Shape := number 0 (Int.pow 2 64 - 1)

/-- Whole numbers of 64 bits, one of them for the sign. -/
def signed64 : Shape := number (-(Int.pow 2 63)) (Int.pow 2 63 - 1)

end Shape

/-- A field that has to be there, unless it is optional. -/
def Field.plain (name : String) (shape : Shape) : Field :=
  match shape with
  | .optional s => mk name (.optional s) (some .absent)
  | s => mk name s none

namespace Value

/-- The value of a field of a record. -/
def get? (v : Value) (name : String) : Option Value :=
  match v with
  | record fields => fields.lookup name
  | _ => none

end Value

end Relay
