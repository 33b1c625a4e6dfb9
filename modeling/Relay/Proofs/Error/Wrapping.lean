import Relay.Error.Taxonomy

/-! What becomes of the meaning of an error when a failure to publish is put in the place of what failed. The
    wrapper shows the text and the sources of what it wraps and says nothing itself, so the walk through the tree
    passes over a failure of the transport in it. Whether that is seen from the root depends on what else the walk
    meets, and when (`Error.unwrapping`). -/

namespace Relay

/-- The first value of a list that is known. -/
def firstKnown {α : Type} [DecidableEq α] (unknown : α) : List α → α
  | [] => unknown
  | a :: l => if a = unknown then firstKnown unknown l else a

section FirstKnown
variable {α : Type} [DecidableEq α] {unknown a : α}

@[simp] theorem firstKnown_nil : firstKnown unknown [] = unknown := rfl

@[simp] theorem firstKnown_singleton : firstKnown unknown [a] = a := by
  simp only [firstKnown]
  split
  · exact Eq.symm ‹_›
  · rfl

theorem firstKnown_append (l l' : List α) : firstKnown unknown (l ++ l') =
    if firstKnown unknown l = unknown then firstKnown unknown l' else firstKnown unknown l := by
  induction l with
  | nil => simp
  | cons a l ih =>
    by_cases ha : a = unknown
    · simpa [firstKnown, ha] using ih
    · simp [firstKnown, ha]

/-- One more value shows unless a known one comes before it, or behind it the same one would be found. -/
theorem firstKnown_skip (l l' : List α) (h : a ≠ unknown) :
    firstKnown unknown (l ++ l') = firstKnown unknown (l ++ a :: l') ↔
      firstKnown unknown l ≠ unknown ∨ firstKnown unknown l' = a := by
  rw [firstKnown_append, firstKnown_append]
  split <;> simp [firstKnown, *]

end FirstKnown

theorem TransportError.code_ne (e : TransportError) : e.code ≠ unknownCode := by
  cases e <;> simp [code, unknownCode]

theorem BrokerTask.code_ne (task : BrokerTask) : task.code ≠ unknownCode := by
  cases task <;> simp [code, unknownCode]

namespace Error

/-- What the nodes of a tree say about themselves, in the order of the walk. -/
def taxa (e : Error) : List Taxon := e.links.filterMap taxon?

def taxaOf (es : List Error) : List Taxon := (linksOf es).filterMap taxon?

@[simp] theorem taxa_wrapper (message : String) (source : Error) : (wrapper message source).taxa = source.taxa := rfl

@[simp] theorem taxa_custom (label : Label) (causes : List Error) :
    (custom label causes).taxa = ⟨label.kind, label.code, label.retryable⟩ :: taxaOf causes := rfl

@[simp] theorem taxa_broker (task : BrokerTask) (source : Error) :
    (broker task source).taxa = ⟨.internal, task.code, false⟩ :: source.taxa := rfl

@[simp] theorem taxaOf_nil : taxaOf [] = [] := rfl

@[simp] theorem taxaOf_cons (e : Error) (es : List Error) : taxaOf (e :: es) = e.taxa ++ taxaOf es := by
  simp [taxaOf, taxa, linksOf]

theorem taxaOf_append (es es' : List Error) : taxaOf (es ++ es') = taxaOf es ++ taxaOf es' := by
  induction es with
  | nil => rfl
  | cons e es ih => simp [ih]

@[simp] theorem taxa_transport (e : TransportError) : (transport e).taxa = [⟨.internal, e.code, false⟩] := rfl

@[simp] theorem taxa_codec (e : CodecError) : (codec e).taxa = [] := rfl

@[simp] theorem taxa_publish (e : PublishError) : (publish e).taxa = [] := by
  cases e <;> rfl

/-! ### The meaning of a tree is found in what its nodes say -/

mutual

theorem kind_eq : (e : Error) → e.kind = firstKnown .unknown (e.taxa.map (·.kind))
  | wrapper _ source => kind_eq source
  | custom label causes => by
    simp only [kind, taxa_custom, List.map_cons, firstKnown, firstKind_eq causes]
  | broker .. => rfl
  | lifecycle (.subscribe ..) => rfl
  | lifecycle .alreadyRunning => rfl
  | lifecycle .notStarted => rfl
  | lifecycle (.workers _) => rfl
  | transport _ => rfl
  | registration e => firstKnown_singleton.symm
  | publish e => by simp [kind]
  | plain _ | codec _ | traceParent _ | configuration _ => rfl

theorem firstKind_eq : (es : List Error) → firstKind es = firstKnown .unknown ((taxaOf es).map (·.kind))
  | [] => rfl
  | e :: es => by
    simp only [firstKind, taxaOf_cons, List.map_append, firstKnown_append, ← kind_eq e, ← firstKind_eq es]

end

mutual

theorem code_eq : (e : Error) → e.code = firstKnown unknownCode (e.taxa.map (·.code))
  | wrapper _ source => code_eq source
  | custom label causes => by
    simp only [code, taxa_custom, List.map_cons, firstKnown, firstCode_eq causes]
  | broker task _ => by simp [code, firstKnown, BrokerTask.code_ne task]
  | lifecycle (.subscribe ..) => rfl
  | lifecycle .alreadyRunning => rfl
  | lifecycle .notStarted => rfl
  | lifecycle (.workers _) => rfl
  | transport _ => firstKnown_singleton.symm
  | registration _ => firstKnown_singleton.symm
  | publish e => by simp [code]
  | plain _ | codec _ | traceParent _ | configuration _ => rfl

theorem firstCode_eq : (es : List Error) → firstCode es = firstKnown unknownCode ((taxaOf es).map (·.code))
  | [] => rfl
  | e :: es => by
    simp only [firstCode, taxaOf_cons, List.map_append, firstKnown_append, ← code_eq e, ← firstCode_eq es]

end

mutual

theorem retryable_eq : (e : Error) → e.retryable = e.taxa.any (·.retryable)
  | wrapper _ source => retryable_eq source
  | custom label causes => by simp only [retryable, taxa_custom, List.any_cons, anyRetryable_eq causes]
  | broker _ source => by simpa [retryable] using retryable_eq source
  | lifecycle (.subscribe ..) => rfl
  | lifecycle .alreadyRunning => rfl
  | lifecycle .notStarted => rfl
  | lifecycle (.workers _) => rfl
  | transport _ => rfl
  | registration _ => rfl
  | publish e => by simp [retryable]
  | plain _ | codec _ | traceParent _ | configuration _ => rfl

theorem anyRetryable_eq : (es : List Error) → anyRetryable es = (taxaOf es).any (·.retryable)
  | [] => rfl
  | e :: es => by simp only [anyRetryable, taxaOf_cons, List.any_append, retryable_eq e, anyRetryable_eq es]

end

/-! ### A place in a tree -/

/-- An error tree with a place left open in it. -/
inductive Frame where
  | here
  | wrapper (message : String) (within : Frame)
  | custom (label : Label) (before : List Error) (within : Frame) (after : List Error)
  | broker (task : BrokerTask) (within : Frame)

namespace Frame

/-- The tree with an error in the open place. -/
def fill : Frame → Error → Error
  | here, e => e
  | wrapper message within, e => .wrapper message (within.fill e)
  | custom label before within after, e => .custom label (before ++ within.fill e :: after)
  | broker task within, e => .broker task (within.fill e)

/-- What the walk is told before it comes to the open place. -/
def ahead : Frame → List Taxon
  | here => []
  | wrapper _ within => within.ahead
  | custom label before within _ => ⟨label.kind, label.code, label.retryable⟩ :: (taxaOf before ++ within.ahead)
  | broker task within => ⟨.internal, task.code, false⟩ :: within.ahead

/-- What the walk is told behind the open place. -/
def behind : Frame → List Taxon
  | here => []
  | wrapper _ within => within.behind
  | custom _ _ within after => within.behind ++ taxaOf after
  | broker _ within => within.behind

theorem taxa_fill (f : Frame) (e : Error) : (f.fill e).taxa = f.ahead ++ e.taxa ++ f.behind := by
  induction f with
  | here => simp [fill, ahead, behind]
  | wrapper _ _ ih => simpa [fill, ahead, behind] using ih
  | custom _ _ _ _ ih => simp [fill, ahead, behind, taxaOf_append, ih]
  | broker _ _ ih => simp [fill, ahead, behind, ih]

end Frame

end Error

/-- What failed, on its own. -/
def PublishError.bare : PublishError → Error
  | codec e => .codec e
  | transport e => .transport e

namespace Error

theorem taxa_fill_publish (f : Frame) (e : PublishError) : (f.fill (publish e)).taxa = f.ahead ++ f.behind := by
  simp [f.taxa_fill]

theorem taxa_fill_codec (f : Frame) (e : CodecError) :
    (f.fill (publish (.codec e))).taxa = (f.fill (codec e)).taxa := by
  simp [f.taxa_fill]

theorem taxa_fill_transport (f : Frame) (e : TransportError) :
    (f.fill (transport e)).taxa = f.ahead ++ ⟨.internal, e.code, false⟩ :: f.behind := by
  simp [f.taxa_fill]

/-- What a failure to publish hides of what failed, wherever in a tree it stands. Whether the work is worth trying
    again is the same with and without the wrapper. So are kind and code if what failed is the writing of the
    value. If it is the transport, then they are the same just if the walk meets a known one before it comes there,
    or would meet the very same one behind. -/
theorem unwrapping (f : Frame) :
    (∀ e, (f.fill (publish e)).retryable = (f.fill e.bare).retryable) ∧
    (∀ e, (f.fill (publish (.codec e))).kind = (f.fill (codec e)).kind ∧
      (f.fill (publish (.codec e))).code = (f.fill (codec e)).code) ∧
    ∀ e, ((f.fill (publish (.transport e))).kind = (f.fill (transport e)).kind ↔
        firstKnown .unknown (f.ahead.map (·.kind)) ≠ .unknown ∨
          firstKnown .unknown (f.behind.map (·.kind)) = .internal) ∧
      ((f.fill (publish (.transport e))).code = (f.fill (transport e)).code ↔
        firstKnown unknownCode (f.ahead.map (·.code)) ≠ unknownCode ∨
          firstKnown unknownCode (f.behind.map (·.code)) = e.code) := by
  refine ⟨fun e => ?_, fun e => ?_, fun e => ⟨?_, ?_⟩⟩
  · rw [retryable_eq, retryable_eq]
    cases e with
    | codec e => rw [PublishError.bare, taxa_fill_codec]
    | transport e => simp [PublishError.bare, taxa_fill_publish, taxa_fill_transport]
  · rw [kind_eq, kind_eq, code_eq, code_eq, taxa_fill_codec]
    exact ⟨rfl, rfl⟩
  · rw [kind_eq, kind_eq, taxa_fill_publish, taxa_fill_transport]
    simpa using firstKnown_skip (f.ahead.map (·.kind)) (f.behind.map (·.kind)) (a := Kind.internal) (by decide)
  · rw [code_eq, code_eq, taxa_fill_publish, taxa_fill_transport]
    simpa using firstKnown_skip (f.ahead.map (·.code)) (f.behind.map (·.code)) e.code_ne

/-- The failure of a closed transport is of unknown kind and code once it is wrapped. -/
theorem closed_hidden : (Frame.here.fill (publish (.transport .closed))).code = "UNKNOWN" ∧
    (Frame.here.fill (publish (.transport .closed))).kind = .unknown ∧
    (Frame.here.fill (transport .closed)).code = "PUBSUB_CLOSED" ∧
    (Frame.here.fill (transport .closed)).kind = .internal := ⟨rfl, rfl, rfl, rfl⟩

end Error
end Relay
