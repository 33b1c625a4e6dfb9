import Relay.Dict

/-!
Messages: an identifier, the topic that they were published to, an unchanging payload, and metadata
that stages may change.
-/

namespace Relay

abbrev Payload := List UInt8

/-- A message. -/
structure Message where
  id : String
  /-- The topic that it was published to; empty before that. -/
  topic : String := ""
  payload : Payload
  metadata : Dict := ∅
deriving DecidableEq

namespace Message

def withMetadata (m : Message) (key value : String) : Message :=
  { m with metadata := m.metadata.insert key value }

def onTopic (m : Message) (topic : String) : Message := { m with topic }

end Message

end Relay
