import Relay.Text.Blank
import Relay.Uuid

/-!
The trace parent of a span, `00-<trace id>-<span id>-<flags>`: reading, writing, and the two ways in
which a new span gets one. Identifiers carry their form in their type, so every trace parent can be
written and read back.
-/

namespace Relay

open Text

/-- What an identifier of `n` digits is made of: lower-case hexadecimal digits, not all zero. -/
def HexId.Valid (n : Nat) (ds : List Char) : Prop :=
  ds.length = n ∧ (∀ c ∈ ds, isLowerHex c = true) ∧ ∃ c ∈ ds, c ≠ '0'

instance (n : Nat) (ds : List Char) : Decidable (HexId.Valid n ds) := by
  unfold HexId.Valid
  exact @instDecidableAnd _ _ (instDecidableEqNat ..)
    (@instDecidableAnd _ _ (List.decidableBAll ..) (List.decidableBEx ..))

/-- An identifier of `n` lower-case hexadecimal digits that are not all zero. -/
structure HexId (n : Nat) where
  /-- The digits, the most significant first. -/
  digits : List Char
  valid : HexId.Valid n digits
deriving DecidableEq

namespace HexId

/-- The identifier with these digits, if they have the form of one. -/
def ofDigits? (n : Nat) (ds : List Char) : Option (HexId n) :=
  if h : Valid n ds then some ⟨ds, h⟩ else none

def text {n : Nat} (i : HexId n) : String := String.ofList i.digits

end HexId

namespace Uuid

theorem four_mem_leading (u : Uuid) : '4' ∈ u.leading := by simp [leading]

/-- All digits, as the identifier of a trace. -/
def traceId (u : Uuid) : HexId 32 :=
  ⟨u.digits, u.length_digits, fun _ => isLowerHex_of_mem_digits, '4',
    List.mem_append_left _ u.four_mem_leading, by decide⟩

/-- The sixteen leading digits, as the identifier of a span. -/
def spanId (u : Uuid) : HexId 16 :=
  ⟨u.leading, u.length_leading, fun _ => isLowerHex_of_mem_leading, '4', u.four_mem_leading,
    by decide⟩

end Uuid

/-- Why a text is no trace parent. -/
inductive TraceParentError where
  /-- The number of dash-separated fields is not four. -/
  | fieldCount (n : Nat)
  /-- The first field is not a version. -/
  | version (field : String)
  /-- The second field is not a trace identifier. -/
  | traceId (field : String)
  /-- The third field is not a span identifier. -/
  | spanId (field : String)
  /-- The last field is not a flag byte. -/
  | flags (field : String)
deriving DecidableEq

def TraceParentError.message : TraceParentError → String
  | fieldCount n => "traceparent must have 4 dash-separated fields, got " ++ toString n
  | version f => "invalid traceparent version: " ++ f
  | traceId f => "invalid trace id: " ++ f
  | spanId f => "invalid span id: " ++ f
  | flags f => "invalid trace flags: " ++ f

/-- The trace to which a span belongs, the span itself, and the trace flags. -/
structure TraceParent where
  traceId : HexId 32
  spanId : HexId 16
  /-- The flag byte; its lowest bit says whether the trace is sampled. -/
  flags : UInt8
deriving DecidableEq

namespace TraceParent

/-- A sampled trace parent that starts a trace of its own. -/
def root (trace span : Uuid) : TraceParent := ⟨trace.traceId, span.spanId, 1⟩

/-- A new span of the same trace, with the same flags. -/
def child (p : TraceParent) (span : Uuid) : TraceParent := { p with spanId := span.spanId }

def isSampled (p : TraceParent) : Bool := p.flags &&& 1 == 1

def chars (p : TraceParent) : List Char :=
  '0' :: '0' :: '-' :: p.traceId.digits ++ '-' :: p.spanId.digits
    ++ '-' :: hexDigits 2 p.flags.toNat

/-- The written form: version `00`, the two identifiers, and the flags as two digits. -/
def render (p : TraceParent) : String := String.ofList p.chars

/-- Whether a field is a version: two lower-case digits other than `ff`. -/
def isVersion (ds : List Char) : Bool :=
  ds.length == 2 && ds.all isLowerHex && ds != ['f', 'f']

/-- The flag byte that a field denotes: two digits of either case, of which the first may be a plus
sign instead. -/
def flags? : List Char → Option UInt8
  | [a, b] =>
    if a = '+' then (hexValue? b).map UInt8.ofNat
    else
      match hexValue? a, hexValue? b with
      | some x, some y => some (UInt8.ofNat (16 * x + y))
      | _, _ => none
  | _ => none

/-- Reads four fields; the first one that is not of its form gives the error. -/
def ofFields (version trace span flags : List Char) : Except TraceParentError TraceParent :=
  if !isVersion version then .error (.version (String.ofList version))
  else
    match HexId.ofDigits? 32 trace with
    | none => .error (.traceId (String.ofList trace))
    | some t =>
      match HexId.ofDigits? 16 span with
      | none => .error (.spanId (String.ofList span))
      | some s =>
        match flags? flags with
        | none => .error (.flags (String.ofList flags))
        | some f => .ok ⟨t, s, f⟩

/-- Reads a trace parent, white space at both ends ignored. -/
def parse (s : String) : Except TraceParentError TraceParent :=
  match fields '-' (trim s.toList) with
  | [v, t, sp, f] => ofFields v t sp f
  | fs => .error (.fieldCount fs.length)

end TraceParent

end Relay
