import Relay.Json.Numeral
import Relay.Json.Value

/-!
Reading JSON as a value of a given shape. A record is an object, whose unknown fields are passed
over, or a list of its fields in order. The fault is the first one from left to right, where a value
of the wrong sort counts as read before it is found unsuitable.
-/

namespace Relay.Json

/-- Where more elements or the end are due. -/
inductive Next where
  | done
  | element
deriving DecidableEq

/-- Looks for a further element of a list, behind a comma unless it is the first. -/
def nextElement (first : Bool) : Reader Next := fun bs =>
  match skipSpace bs with
  | [] => .error .ended
  | b :: rest =>
    if b = byte ']' then .ok (.done, b :: rest)
    else if first then .ok (.element, b :: rest)
    else if b = byte ',' then
      match skipSpace rest with
      | [] => .error .ended
      | c :: rest => if c = byte ']' then .error .malformed else .ok (.element, c :: rest)
    else .error .malformed

/-- Looks for a further key of an object, behind a comma unless it is the first. The quote of the
key is passed over. -/
def nextKey (first : Bool) : Reader Next := fun bs =>
  let key : List UInt8 → Except ReadFault (Next × List UInt8)
    | [] => .error .ended
    | b :: rest => if b = byte '"' then .ok (.element, rest) else .error .malformed
  match skipSpace bs with
  | [] => .error .ended
  | b :: rest =>
    if b = byte '}' then .ok (.done, b :: rest)
    else if first then key (b :: rest)
    else if b = byte ',' then key (skipSpace rest)
    else .error .malformed

def skipColon : Reader Unit := fun bs =>
  match skipSpace bs with
  | [] => .error .ended
  | b :: rest => if b = byte ':' then .ok ((), rest) else .error .malformed

def skipClose (close : UInt8) : Reader Unit := fun bs =>
  match skipSpace bs with
  | [] => .error .ended
  | b :: rest => if b = close then .ok ((), rest) else .error .malformed

/-! ### Passing over values -/

mutual

/-- Passes over a value of any sort, within as many steps as `fuel` says. -/
def skipValueWithin : Nat → Reader Unit
  | 0, _ => .error .malformed
  | fuel + 1, bs =>
    match skipSpace bs with
    | [] => .error .ended
    | b :: rest =>
      if b = byte 'n' then readUll rest
      else if b = byte 't' then readRue rest
      else if b = byte 'f' then readAlse rest
      else if b = byte '-' then skipNumeral rest
      else if isDigit b then skipNumeral (b :: rest)
      else if b = byte '"' then skipString rest
      else if b = byte '[' then skipElementsWithin fuel true rest
      else if b = byte '{' then skipMembersWithin fuel true rest
      else .error .malformed

/-- Passes over the elements of a list and its closing bracket. -/
def skipElementsWithin : Nat → Bool → Reader Unit
  | 0, _, _ => .error .malformed
  | fuel + 1, first, bs =>
    match skipSpace bs with
    | [] => .error .ended
    | b :: rest =>
      if b = byte ']' then .ok ((), rest)
      else
        let start : Except ReadFault (List UInt8) :=
          if first then .ok (b :: rest) else if b = byte ',' then .ok rest else .error .malformed
        match start with
        | .error e => .error e
        | .ok start =>
          match skipValueWithin fuel start with
          | .error e => .error e
          | .ok (_, rest) => skipElementsWithin fuel false rest

/-- Passes over the members of an object and its closing bracket. -/
def skipMembersWithin : Nat → Bool → Reader Unit
  | 0, _, _ => .error .malformed
  | fuel + 1, first, bs =>
    match nextKey first bs with
    | .error e => .error e
    | .ok (.done, rest) => .ok ((), rest.drop 1)
    | .ok (.element, rest) =>
      match skipString rest with
      | .error e => .error e
      | .ok (_, rest) =>
        match skipColon rest with
        | .error e => .error e
        | .ok (_, rest) =>
          match skipValueWithin fuel rest with
          | .error e => .error e
          | .ok (_, rest) => skipMembersWithin fuel false rest

end

/-- Passes over a value of any sort. Every second step takes a byte. -/
def skipValue : Reader Unit := fun bs => skipValueWithin (2 * bs.length + 2) bs

/-! ### Reading values -/

/-- The fault of a value of the wrong sort: unsuitable, unless it is malformed itself. -/
def wrongSort {α : Type} : Reader α := fun bs =>
  let seen {β : Type} : Except ReadFault (β × List UInt8) → Except ReadFault (α × List UInt8)
    | .error e => .error e
    | .ok _ => .error .unsuitable
  match bs with
  | [] => .error .malformed
  | b :: rest =>
    if b = byte 'n' then seen (readUll rest)
    else if b = byte 't' then seen (readRue rest)
    else if b = byte 'f' then seen (readAlse rest)
    else if b = byte '-' then seen (readNumeral true rest)
    else if isDigit b then seen (readNumeral false bs)
    else if b = byte '"' then seen (readString rest)
    else if b = byte '[' ∨ b = byte '{' then .error .unsuitable
    else .error .malformed

def readNumber : Reader Numeral := fun bs =>
  match skipSpace bs with
  | [] => .error .ended
  | b :: rest =>
    if b = byte '-' then readNumeral true rest
    else if isDigit b then readNumeral false (b :: rest)
    else wrongSort (b :: rest)

def readText : Reader Value := fun bs =>
  match skipSpace bs with
  | [] => .error .ended
  | b :: rest =>
    if b = byte '"' then (readString rest).map fun r => (.text r.1, r.2) else wrongSort (b :: rest)

def readFlag : Reader Value := fun bs =>
  match skipSpace bs with
  | [] => .error .ended
  | b :: rest =>
    if b = byte 't' then (readRue rest).map fun r => (.flag true, r.2)
    else if b = byte 'f' then (readAlse rest).map fun r => (.flag false, r.2)
    else wrongSort (b :: rest)

def readWhole (low high : Int) : Reader Value := fun bs =>
  match readNumber bs with
  | .error e => .error e
  | .ok (.real _, _) => .error .unsuitable
  | .ok (.natural n, rest) =>
    if low ≤ n ∧ (n : Int) ≤ high then .ok (.number n, rest) else .error .unsuitable
  | .ok (.negative n, rest) =>
    if low ≤ -(n : Int) ∧ -(n : Int) ≤ high then .ok (.number (-n), rest) else .error .unsuitable

/-- Reads a floating-point number; whole numbers are taken for one. -/
def readReal : Reader Value := fun bs =>
  match readNumber bs with
  | .error e => .error e
  | .ok (.real x, rest) => .ok (.real x, rest)
  | .ok (.natural n, rest) => .ok (.real (.ofNat n), rest)
  | .ok (.negative n, rest) => .ok (.real (-(.ofNat n)), rest)

/-- Reads `null` as nothing, and anything else as a value. -/
def readOptional (value : Reader Value) : Reader Value := fun bs =>
  match skipSpace bs with
  | b :: rest =>
    if b = byte 'n' then (readUll rest).map fun r => (.absent, r.2) else value (b :: rest)
  | [] => value []

/-- Reads the elements of a list, within as many steps as `fuel` says. -/
def readElements (element : Reader Value) : Nat → Bool → Reader (List Value)
  | 0, _, _ => .error .malformed
  | fuel + 1, first, bs =>
    match nextElement first bs with
    | .error e => .error e
    | .ok (.done, rest) => .ok ([], rest)
    | .ok (.element, rest) =>
      match element rest with
      | .error e => .error e
      | .ok (v, rest) =>
        match readElements element fuel false rest with
        | .error e => .error e
        | .ok (vs, rest) => .ok (v :: vs, rest)

def readList (element : Reader Value) : Reader Value := fun bs =>
  match skipSpace bs with
  | [] => .error .ended
  | b :: rest =>
    if b = byte '[' then
      match readElements element (rest.length + 1) true rest with
      | .error e => .error e
      | .ok (vs, rest) => (skipClose (byte ']') rest).map fun r => (.list vs, r.2)
    else wrongSort (b :: rest)

/-- A field of a record with the reader of its values. -/
structure FieldReader where
  name : String
  read : Reader Value
  missing : Option Value

/-- Reads the fields of a record from a list. -/
def readPositions (lenient : Bool) : List FieldReader → Bool → Reader (List (String × Value))
  | [], _, bs => .ok ([], bs)
  | f :: fs, first, bs =>
    match nextElement first bs with
    | .error e => .error e
    | .ok (.done, rest) =>
      match if lenient then f.missing else none with
      | none => .error .unsuitable
      | some v =>
        match readPositions lenient fs first rest with
        | .error e => .error e
        | .ok (vs, rest) => .ok ((f.name, v) :: vs, rest)
    | .ok (.element, rest) =>
      match f.read rest with
      | .error e => .error e
      | .ok (v, rest) =>
        match readPositions lenient fs false rest with
        | .error e => .error e
        | .ok (vs, rest) => .ok ((f.name, v) :: vs, rest)

/-- The fields of a record in order, those that were not read with the values for that. -/
def complete (known : List (String × Value)) :
    List FieldReader → Except ReadFault (List (String × Value))
  | [] => .ok []
  | f :: fs =>
    match (known.lookup f.name).or f.missing with
    | none => .error .unsuitable
    | some v => (complete known fs).map ((f.name, v) :: ·)

/-- Reads the members of an object: the fields of a record, each at most once, and any others. -/
def readMembers (fields : List FieldReader) :
    Nat → Bool → List (String × Value) → Reader (List (String × Value))
  | 0, _, _, _ => .error .malformed
  | fuel + 1, first, known, bs =>
    match nextKey first bs with
    | .error e => .error e
    | .ok (.done, rest) => (complete known fields).map (·, rest)
    | .ok (.element, rest) =>
      match readString rest with
      | .error e => .error e
      | .ok (key, rest) =>
        match fields.find? (·.name == key) with
        | none =>
          match skipColon rest with
          | .error e => .error e
          | .ok (_, rest) =>
            match skipValue rest with
            | .error e => .error e
            | .ok (_, rest) => readMembers fields fuel false known rest
        | some f =>
          if (known.lookup key).isSome then .error .unsuitable
          else
            match skipColon rest with
            | .error e => .error e
            | .ok (_, rest) =>
              match f.read rest with
              | .error e => .error e
              | .ok (v, rest) => readMembers fields fuel false ((key, v) :: known) rest

def readRecord (lenient : Bool) (fields : List FieldReader) : Reader Value := fun bs =>
  match skipSpace bs with
  | [] => .error .ended
  | b :: rest =>
    if b = byte '[' then
      match readPositions lenient fields true rest with
      | .error e => .error e
      | .ok (vs, rest) => (skipClose (byte ']') rest).map fun r => (.record vs, r.2)
    else if b = byte '{' then
      match readMembers fields (rest.length + 1) true [] rest with
      | .error e => .error e
      | .ok (vs, rest) => (skipClose (byte '}') rest).map fun r => (.record vs, r.2)
    else wrongSort (b :: rest)

mutual

def readShape : Shape → Reader Value
  | .text => readText
  | .number low high => readWhole low high
  | .real => readReal
  | .flag => readFlag
  | .optional s => readOptional (readShape s)
  | .list s => readList (readShape s)
  | .record lenient fields => readRecord lenient (readFields fields)

/-- The readers of the fields of a record. -/
def readFields : List Field → List FieldReader
  | [] => []
  | f :: fs => readField f :: readFields fs

def readField : Field → FieldReader
  | .mk name shape missing => ⟨name, readShape shape, missing⟩

end

/-- Reads a text that holds a value of a shape and nothing behind it. -/
def read (s : Shape) (bs : List UInt8) : Except ReadFault Value :=
  match readShape s bs with
  | .error e => .error e
  | .ok (v, rest) => if (skipSpace rest).isEmpty then .ok v else .error .malformed

end Relay.Json
