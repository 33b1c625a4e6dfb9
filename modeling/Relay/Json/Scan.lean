import Relay.Error.Basic

/-!
Reading JSON from bytes, left to right, up to the first fault: blanks, words and strings. A fault is
that the text ended, that it is malformed, or that it holds an unsuitable value; of several faults
the one met first is reported.
-/

namespace Relay.Json

/-- What a reader makes of the start of a text, and what follows that. -/
abbrev Reader (α : Type) : Type := List UInt8 → Except ReadFault (α × List UInt8)

/-- The byte of an ASCII character. -/
def byte (c : Char) : UInt8 := UInt8.ofNat c.toNat

def isSpace (b : UInt8) : Bool := b = 0x20 || b = 0x09 || b = 0x0A || b = 0x0D

/-- The text from its first byte that is no blank. -/
def skipSpace (bs : List UInt8) : List UInt8 := bs.dropWhile isSpace

def isDigit (b : UInt8) : Bool := 0x30 ≤ b && b ≤ 0x39

def digitValue (b : UInt8) : Nat := b.toNat - 0x30

/-- The value of a hexadecimal digit of either case. -/
def hexValue? (b : UInt8) : Option Nat :=
  if isDigit b then some (digitValue b)
  else if 0x61 ≤ b && b ≤ 0x66 then some (b.toNat - 0x61 + 10)
  else if 0x41 ≤ b && b ≤ 0x46 then some (b.toNat - 0x41 + 10)
  else none

def readWord : List UInt8 → Reader Unit
  | [], bs => .ok ((), bs)
  | _ :: _, [] => .error .ended
  | w :: word, b :: bs => if w = b then readWord word bs else .error .malformed

/-- The rest of `null`, of `true` and of `false`. -/
def readUll : Reader Unit := readWord ("ull".toList.map byte)
@[inherit_doc readUll] def readRue : Reader Unit := readWord ("rue".toList.map byte)
@[inherit_doc readUll] def readAlse : Reader Unit := readWord ("alse".toList.map byte)

/-! ### Strings -/

/-- Where the reading of a string stands. -/
inductive Scan where
  | plain
  | escaped
  /-- Within the four digits of an escape: how many are left, the value so far, and the first half
  of a pair if this is the second. -/
  | hex (left value : Nat) (lead : Option Nat)
  /-- After the first half of a pair: a backslash is due. -/
  | paired (lead : Nat)
  /-- After that backslash: the letter `u` is due. -/
  | marked (lead : Nat)

/-- What a step of reading a string leads to. -/
inductive Scanned where
  /-- More of the string follows; these bytes belong to its value. -/
  | more (s : Scan) (value : List UInt8)
  | closed

/-- The byte that a one-letter escape stands for. -/
def escapeValue? (b : UInt8) : Option UInt8 :=
  if b = byte '"' ∨ b = byte '\\' ∨ b = byte '/' then some b
  else if b = byte 'b' then some 0x08
  else if b = byte 'f' then some 0x0C
  else if b = byte 'n' then some 0x0A
  else if b = byte 'r' then some 0x0D
  else if b = byte 't' then some 0x09
  else none

/-- The value of four hexadecimal digits: alone, or as the second half of a pair. Unless pairs are
enforced, a half by itself counts for nothing. -/
def unitScanned (strict : Bool) (unit : Nat) (lead : Option Nat) : Except ReadFault Scanned :=
  match lead with
  | some high =>
    if 0xDC00 ≤ unit ∧ unit ≤ 0xDFFF then
      .ok (.more .plain (String.utf8EncodeChar
        (Char.ofNat ((high - 0xD800) * 0x400 + (unit - 0xDC00) + 0x10000))))
    else .error .malformed
  | none =>
    if unit < 0xD800 ∨ 0xDFFF < unit then
      .ok (.more .plain (String.utf8EncodeChar (Char.ofNat unit)))
    else if !strict then .ok (.more .plain [])
    else if unit ≤ 0xDBFF then .ok (.more (.paired unit) [])
    else .error .malformed

/-- One byte of a string; `rest` is how many bytes follow it. The four digits of an escape must all
be there before any is looked at. -/
def scan (strict : Bool) (rest : Nat) (b : UInt8) : Scan → Except ReadFault Scanned
  | .plain =>
    if b = byte '"' then .ok .closed
    else if b = byte '\\' then .ok (.more .escaped [])
    else if b < 0x20 then .error .malformed
    else .ok (.more .plain [b])
  | .escaped =>
    if b = byte 'u' then if rest < 4 then .error .ended else .ok (.more (.hex 4 0 none) [])
    else
      match escapeValue? b with
      | some v => .ok (.more .plain [v])
      | none => .error .malformed
  | .hex left value lead =>
    match hexValue? b with
    | none => .error .malformed
    | some d =>
      if left ≤ 1 then unitScanned strict (16 * value + d) lead
      else .ok (.more (.hex (left - 1) (16 * value + d) lead) [])
  | .paired high => if b = byte '\\' then .ok (.more (.marked high) []) else .error .malformed
  | .marked high =>
    if b = byte 'u' then
      if rest < 4 then .error .ended else .ok (.more (.hex 4 0 (some high)) [])
    else .error .malformed

/-- The bytes of a string whose opening quote has been read, and what follows its closing quote. -/
def scanString (strict : Bool) : Scan → Reader (List UInt8)
  | _, [] => .error .ended
  | s, b :: bs =>
    match scan strict bs.length b s with
    | .error e => .error e
    | .ok .closed => .ok ([], bs)
    | .ok (.more s value) =>
      match scanString strict s bs with
      | .error e => .error e
      | .ok (more, rest) => .ok (value ++ more, rest)

def textOf? (bs : List UInt8) : Option String := String.fromUTF8? (ByteArray.mk bs.toArray)

/-- Reads a string whose opening quote has been read. That its bytes encode a text is checked when
it has ended. -/
def readString : Reader String := fun bs =>
  match scanString true .plain bs with
  | .error e => .error e
  | .ok (value, rest) =>
    match textOf? value with
    | some s => .ok (s, rest)
    | none => .error .malformed

/-- Passes over a string whose opening quote has been read. -/
def skipString : Reader Unit := fun bs =>
  match scanString false .plain bs with
  | .error e => .error e
  | .ok (_, rest) => .ok ((), rest)

end Relay.Json
