/-!
Cancellation tokens. Tokens form a forest: cancelling one cancels those derived from it, never the
one that it was derived from. `Tokens.below` is the order of the forest, `Tokens.cancel` marks
everything below a token, and a token derived from a cancelled one is cancelled from the start.
-/

namespace Relay

/-- A token, named by the place at which it was made. -/
abbrev Token := Nat

/-- What is kept of a token. -/
structure TokenNode where
  parent : Option Token
  cancelled : Bool
deriving DecidableEq

/-- All tokens made so far, in the order in which they were made. -/
structure Tokens where
  nodes : List TokenNode := []
deriving DecidableEq, Inhabited

namespace Tokens

def isCancelled (s : Tokens) (t : Token) : Bool :=
  match s.nodes[t]? with
  | some n => n.cancelled
  | none => false

/-- The token that the next one made will be. -/
def next (s : Tokens) : Token := s.nodes.length

/-- Makes a token that depends on no other. -/
def fresh (s : Tokens) : Tokens := ⟨s.nodes ++ [⟨none, false⟩]⟩

/-- Makes a token that is cancelled along with `t`. -/
def derive (s : Tokens) (t : Token) : Tokens := ⟨s.nodes ++ [⟨some t, s.isCancelled t⟩]⟩

/-- Whether `i` is `t` or derived from it in any number of steps. -/
def below (s : Tokens) (t i : Token) : Bool :=
  i == t ||
    match s.nodes[i]? with
    | some ⟨some p, _⟩ => if p < i then s.below t p else false
    | _ => false
termination_by i

/-- Cancels a token and all that were derived from it. -/
def cancel (s : Tokens) (t : Token) : Tokens :=
  ⟨s.nodes.mapIdx fun i n => if s.below t i then { n with cancelled := true } else n⟩

end Tokens

end Relay
