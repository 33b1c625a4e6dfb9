import Relay.Json.Value
import Relay.Number.Shortest
import Relay.Text.Hex

/-!
Writing values as JSON: no blanks, the fields of a record in their order, and in texts no escapes but
those that are needed.
-/

namespace Relay.Json

open Text

/-- The character as it stands in a text: quotes, backslashes and control characters are escaped. -/
def escape (c : Char) : List Char :=
  if c = '"' then ['\\', '"']
  else if c = '\\' then ['\\', '\\']
  else if c = '\x08' then ['\\', 'b']
  else if c = '\x0c' then ['\\', 'f']
  else if c = '\n' then ['\\', 'n']
  else if c = '\r' then ['\\', 'r']
  else if c = '\t' then ['\\', 't']
  else if c.toNat < 0x20 then '\\' :: 'u' :: hexDigits 4 c.toNat
  else [c]

def quote (s : String) : String := String.ofList ('"' :: s.toList.flatMap escape ++ ['"'])

mutual

def write : Value → String
  | .absent => "null"
  | .text s => quote s
  | .number n => toString n
  | .real x => x.text
  | .flag b => if b then "true" else "false"
  | .list items => "[" ++ writeItems items ++ "]"
  | .record fields => "\x7b" ++ writeFields fields ++ "\x7d"

/-- The written forms of the items of a list. -/
def writeItems : List Value → String
  | [] => ""
  | [v] => write v
  | v :: vs => write v ++ "," ++ writeItems vs

/-- The written forms of the fields of a record. -/
def writeFields : List (String × Value) → String
  | [] => ""
  | [(k, v)] => quote k ++ ":" ++ write v
  | (k, v) :: fs => quote k ++ ":" ++ write v ++ "," ++ writeFields fs

end

end Relay.Json
