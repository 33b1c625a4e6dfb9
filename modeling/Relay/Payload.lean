import Relay.Error.Basic
import Relay.Json.Read
import Relay.Json.Write
import Relay.Propagation

/-!
Typed payloads: how values of a type become the payload of a message and come back. The name of the
type travels in the metadata.
-/

namespace Relay

/-- What a message of a type is for. -/
inductive Role where
  | command
  | event
deriving DecidableEq

def Role.text : Role → String
  | command => "command"
  | event => "event"

/-- A type of payloads. -/
structure PayloadType where
  topic : String
  typeName : String
  /-- Writes a value, or says why it cannot be written. -/
  write : Value → Except String Payload
  read : Payload → Except ReadFault Value

def bytesOf (s : String) : Payload := s.toUTF8.data.toList

/-- The type of the values of a shape, written as JSON. -/
def PayloadType.ofShape (topic typeName : String) (s : Shape) : PayloadType where
  topic
  typeName
  write v := .ok (bytesOf (Json.write v))
  read := Json.read s

/-- A message that carries a written value under a name. -/
def marshal (name : String) (written : Except String Payload) (id : Uuid) :
    Except CodecError Message :=
  match written with
  | .ok payload => .ok (({ id := id.text, payload : Message }).withMetadata nameKey name)
  | .error reason => .error (.encode name (.ofText reason))

/-- The name under which a message was written, or else its topic. -/
def Message.payloadName (m : Message) : String := (m.metadata.get? nameKey).getD m.topic

def unmarshal (read : Payload → Except ReadFault Value) (m : Message) :
    Except CodecError Value :=
  match read m.payload with
  | .ok v => .ok v
  | .error fault => .error (.decode m.payloadName fault)

/-- The code of an error for a payload that cannot be read. -/
def decodeCode : String := "DECODE_ERROR"

/-- What a handler's message ends with if its payload cannot be read: invalid input, which another
attempt would not mend. -/
def CodecError.toError (e : CodecError) : Error :=
  .custom ⟨"failed to decode message payload", .invalidInput, decodeCode, false⟩ [.codec e]

end Relay
