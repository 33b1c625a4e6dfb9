import Relay.Dict.Lemmas
import Relay.Payload
import Relay.Proofs.Isolation.Identifiers
import Relay.World

/-! Messages and contexts up to generated identifiers. A veil puts one identifier in place of all that
    were drawn, wherever they may have got to: a correlation identifier, a trace parent, the identifier
    of a message. Everything that is done to messages and contexts on their way may as well be done behind
    the veil. -/

namespace Relay

namespace Dict

/-- The dictionary with other values under its keys. -/
def mapValues (f : String → String → String) (d : Dict) : Dict where
  entries := d.entries.map fun e => (e.1, f e.1 e.2)
  sorted := List.pairwise_map.mpr d.sorted

variable {f : String → String → String} {d : Dict} {key value : String}

theorem get?_mapValues : (d.mapValues f).get? key = (d.get? key).map (f key) := by
  show (d.entries.map _).lookup key = (d.entries.lookup key).map _
  induction d.entries with
  | nil => rfl
  | cons e rest ih =>
    rw [List.map_cons, Entries.lookup_cons, ih, Entries.lookup_cons]
    by_cases he : key = e.1
    · rw [if_pos he, if_pos he, he]
      rfl
    · rw [if_neg he, if_neg he]

theorem mapValues_insert : (d.insert key value).mapValues f = (d.mapValues f).insert key (f key value) :=
  eq_of_get?_eq fun k => by
    rw [get?_mapValues, get?_insert, get?_insert, get?_mapValues]
    by_cases hk : k = key
    · rw [if_pos hk, if_pos hk, hk]
      rfl
    · rw [if_neg hk, if_neg hk]

theorem mapValues_mapValues (hf : ∀ k v, f k (f k v) = f k v) : (d.mapValues f).mapValues f = d.mapValues f :=
  eq_of_get?_eq fun k => by
    rw [get?_mapValues, get?_mapValues, Option.map_map]
    exact congrArg (Option.map · _) (funext fun v => hf k v)

end Dict

variable (drawn : Uuid → Prop)

/-! ### What is written and what it stands for -/

namespace Veil

open Classical in
noncomputable def traceId (i : HexId 32) : HexId 32 := if ∃ u, drawn u ∧ i = u.traceId then Uuid.mask.traceId else i

open Classical in
noncomputable def spanId (i : HexId 16) : HexId 16 := if ∃ u, drawn u ∧ i = u.spanId then Uuid.mask.spanId else i

noncomputable def parent (p : TraceParent) : TraceParent := ⟨traceId drawn p.traceId, spanId drawn p.spanId, p.flags⟩

open Classical in
/-- A text behind the veil: an identifier that was drawn is hidden, and so are those in a trace parent. -/
noncomputable def text (s : String) : String :=
  if ∃ u, drawn u ∧ s = u.text then Uuid.mask.text
  else
    match TraceParent.parse s with
    | .ok p => if parent drawn p = p then s else (parent drawn p).render
    | .error _ => s

/-- An identifier that nobody sees behind the veil. -/
def Hides (u : Uuid) : Prop := drawn u ∨ u = .mask

variable {drawn} {s : String} {u t : Uuid} {p : TraceParent}

theorem traceId_hidden (hu : Hides drawn u) : traceId drawn u.traceId = Uuid.mask.traceId := by
  rcases hu with hu | rfl
  · exact if_pos ⟨u, hu, rfl⟩
  · exact ite_self _

theorem spanId_hidden (hu : Hides drawn u) : spanId drawn u.spanId = Uuid.mask.spanId := by
  rcases hu with hu | rfl
  · exact if_pos ⟨u, hu, rfl⟩
  · exact ite_self _

theorem traceId_traceId (i : HexId 32) : traceId drawn (traceId drawn i) = traceId drawn i := by
  by_cases h : ∃ u, drawn u ∧ i = u.traceId
  · rw [show traceId drawn i = Uuid.mask.traceId from if_pos h]
    exact ite_self _
  · rw [show traceId drawn i = i from if_neg h]
    exact if_neg h

theorem spanId_spanId (i : HexId 16) : spanId drawn (spanId drawn i) = spanId drawn i := by
  by_cases h : ∃ u, drawn u ∧ i = u.spanId
  · rw [show spanId drawn i = Uuid.mask.spanId from if_pos h]
    exact ite_self _
  · rw [show spanId drawn i = i from if_neg h]
    exact if_neg h

theorem parent_parent : parent drawn (parent drawn p) = parent drawn p := by
  simp only [parent, traceId_traceId, spanId_spanId]

theorem parent_child (hu : Hides drawn u) : parent drawn (p.child u) = (parent drawn p).child .mask := by
  rw [parent, TraceParent.child, spanId_hidden hu]
  rfl

theorem parent_root (ht : Hides drawn t) (hu : Hides drawn u) : parent drawn (.root t u) = .root .mask .mask := by
  rw [parent, TraceParent.root, traceId_hidden ht, spanId_hidden hu]
  rfl

theorem render_ne_text : p.render ≠ u.text := fun h => by
  obtain ⟨e, he⟩ := TraceParent.parse_text u
  rw [← h, TraceParent.parse_render] at he
  cases he

/-- The three kinds of text: one that was drawn, one that is a trace parent, and any other. -/
theorem text_cases (s : String) :
    (∃ u, drawn u ∧ s = u.text ∧ text drawn s = Uuid.mask.text) ∨
      (∃ p, TraceParent.parse s = .ok p ∧ (parent drawn p = p ∧ text drawn s = s ∨
        text drawn s = (parent drawn p).render)) ∨
      ∃ e, TraceParent.parse s = .error e ∧ text drawn s = s := by
  by_cases hs : ∃ u, drawn u ∧ s = u.text
  · obtain ⟨u, hu, rfl⟩ := hs
    exact .inl ⟨u, hu, rfl, if_pos ⟨u, hu, rfl⟩⟩
  · rw [text, if_neg hs]
    cases hp : TraceParent.parse s with
    | error e => exact .inr (.inr ⟨e, rfl, rfl⟩)
    | ok p =>
      refine .inr (.inl ⟨p, rfl, ?_⟩)
      dsimp only
      split
      · rename_i h
        exact .inl ⟨h, rfl⟩
      · exact .inr rfl

theorem text_render : text drawn p.render = (parent drawn p).render := by
  rcases @text_cases drawn p.render with ⟨u, -, he, -⟩ | ⟨q, hq, ⟨hp, he⟩ | he⟩ | ⟨e, hq, -⟩
  · exact absurd he render_ne_text
  · rw [TraceParent.parse_render] at hq
    cases hq
    rw [he, hp]
  · rw [TraceParent.parse_render] at hq
    cases hq
    exact he
  · rw [TraceParent.parse_render] at hq
    cases hq

theorem text_mask : text drawn Uuid.mask.text = Uuid.mask.text := by
  rcases @text_cases drawn Uuid.mask.text with ⟨u, -, -, he⟩ | ⟨q, hq, -⟩ | ⟨e, -, he⟩
  · exact he
  · obtain ⟨e, he⟩ := TraceParent.parse_text .mask
    rw [hq] at he
    cases he
  · exact he

theorem text_hidden (hu : Hides drawn u) : text drawn u.text = Uuid.mask.text := by
  rcases hu with hu | rfl
  · exact if_pos ⟨u, hu, rfl⟩
  · exact text_mask

theorem text_text : text drawn (text drawn s) = text drawn s := by
  rcases @text_cases drawn s with ⟨u, -, -, he⟩ | ⟨p, -, ⟨-, he⟩ | he⟩ | ⟨e, -, he⟩
  · rw [he, text_mask]
  · rw [he, he]
  · rw [he, text_render, parent_parent]
  · rw [he, he]

/-- A text is a trace parent behind the veil if it is one in the open. -/
theorem parse_veiled : (TraceParent.parse (text drawn s)).toOption =
    (TraceParent.parse s).toOption.map (parent drawn) := by
  rcases @text_cases drawn s with ⟨u, -, rfl, he⟩ | ⟨p, hp, ⟨hsame, he⟩ | he⟩ | ⟨e, hp, he⟩
  · obtain ⟨e, hu⟩ := TraceParent.parse_text u
    obtain ⟨e', hm⟩ := TraceParent.parse_text .mask
    rw [he, hu, hm]
    rfl
  · rw [he, hp]
    exact congrArg some hsame.symm
  · rw [he, TraceParent.parse_render, hp]
    rfl
  · rw [he, hp]
    rfl

theorem text_eq_empty : text drawn s = "" ↔ s = "" := by
  rcases @text_cases drawn s with ⟨u, -, rfl, he⟩ | ⟨p, hp, ⟨-, he⟩ | he⟩ | ⟨e, -, he⟩
  · rw [he]
    exact iff_of_false (Uuid.text_ne_empty _) (Uuid.text_ne_empty _)
  · rw [he]
  · rw [he]
    refine iff_of_false (fun h => ?_) fun h => ?_
    · have := congrArg (fun s : String => s.toList.length) h
      simp [TraceParent.render, TraceParent.chars, String.toList_ofList] at this
    · rw [h] at hp
      cases hp
  · rw [he]

variable (drawn)

/-- The value of an entry of metadata behind the veil. The name under which a value was written is never one
    that was drawn. -/
noncomputable def entry (key value : String) : String := if key = nameKey then value else text drawn value

noncomputable def metadata (d : Dict) : Dict := d.mapValues (entry drawn)

noncomputable def baggage (d : Dict) : Dict := d.mapValues fun _ => text drawn

variable {drawn} {key value : String} {d : Dict}

theorem entry_name : entry drawn nameKey value = value := if_pos rfl

theorem entry_of_ne (h : key ≠ nameKey) : entry drawn key value = text drawn value := if_neg h

theorem entry_entry : entry drawn key (entry drawn key value) = entry drawn key value := by
  by_cases hk : key = nameKey
  · subst hk
    rw [entry_name]
  · rw [entry_of_ne hk, entry_of_ne hk, text_text]

theorem metadata_metadata : metadata drawn (metadata drawn d) = metadata drawn d :=
  Dict.mapValues_mapValues fun _ _ => entry_entry

theorem baggage_baggage : baggage drawn (baggage drawn d) = baggage drawn d :=
  Dict.mapValues_mapValues fun _ _ => text_text

theorem get?_metadata : (metadata drawn d).get? key = (d.get? key).map (entry drawn key) := Dict.get?_mapValues

theorem metadata_insert : metadata drawn (d.insert key value) = (metadata drawn d).insert key (entry drawn key value) :=
  Dict.mapValues_insert

end Veil

/-! ### Messages and contexts -/

noncomputable def Message.veil (m : Message) : Message :=
  { m with id := Veil.text drawn m.id, metadata := Veil.metadata drawn m.metadata }

noncomputable def Context.veil (c : Context) : Context where
  token := c.token
  correlationId := c.correlationId.map (Veil.text drawn)
  trace := c.trace.map (Veil.parent drawn)
  baggage := Veil.baggage drawn c.baggage

noncomputable def Input.veil : Input → Input
  | .message m => .message (m.veil drawn)
  | .value v => .value v

variable {drawn}

@[simp] theorem Message.veil_veil (m : Message) : (m.veil drawn).veil drawn = m.veil drawn := by
  simp only [Message.veil, Veil.text_text, Veil.metadata_metadata]

@[simp] theorem Context.veil_token (c : Context) : (c.veil drawn).token = c.token := rfl

@[simp] theorem Context.veil_veil (c : Context) : (c.veil drawn).veil drawn = c.veil drawn := by
  have htext : Veil.text drawn ∘ Veil.text drawn = Veil.text drawn := funext fun _ => Veil.text_text
  have hparent : Veil.parent drawn ∘ Veil.parent drawn = Veil.parent drawn := funext fun _ => Veil.parent_parent
  simp only [Context.veil, Option.map_map, htext, hparent, Veil.baggage_baggage]

@[simp] theorem Input.veil_veil (i : Input) : (i.veil drawn).veil drawn = i.veil drawn := by
  cases i with
  | message m => simp only [Input.veil, Message.veil_veil]
  | value v => rfl

theorem Message.veil_withMetadata (m : Message) (key value : String) :
    (m.withMetadata key value).veil drawn = (m.veil drawn).withMetadata key (Veil.entry drawn key value) := by
  simp only [Message.veil, Message.withMetadata, Veil.metadata_insert]

theorem Message.veil_onTopic (m : Message) (topic : String) :
    (m.onTopic topic).veil drawn = (m.veil drawn).onTopic topic := rfl

/-- A value is read from a message behind the veil as in the open. -/
theorem unmarshal_veil (read : Payload → Except ReadFault Value) (m : Message) :
    unmarshal read (m.veil drawn) = unmarshal read m := by
  have hname : (m.veil drawn).payloadName = m.payloadName := by
    have hentry : Veil.entry drawn nameKey = id := funext fun _ => Veil.entry_name
    have hget : ((m.veil drawn).metadata.get? nameKey) = m.metadata.get? nameKey := by
      rw [Message.veil, Veil.get?_metadata, hentry, Option.map_id_fun, id]
    simp only [Message.payloadName, hget]
    rfl
  rw [unmarshal, unmarshal, hname]
  rfl

/-! ### Across the transport -/

theorem correlationKey_ne : correlationKey ≠ nameKey := by decide

theorem traceKey_ne : traceKey ≠ nameKey := by decide

theorem baggageMember?_name : baggageMember? nameKey = none := rfl

theorem baggageKey_ne (member : String) : baggageKey member ≠ nameKey := fun h => by
  have := congrArg (fun s : String => s.toList.head?) h
  simp [baggageKey, baggagePrefix, nameKey] at this

theorem addMember_veil (b : Dict) (e : String × String) :
    Veil.baggage drawn (addMember b e) = addMember (Veil.baggage drawn b) (e.1, Veil.entry drawn e.1 e.2) := by
  unfold addMember
  cases hm : baggageMember? e.1 with
  | none => rfl
  | some member =>
    have hk : e.1 ≠ nameKey := fun hk => by
      rw [hk, baggageMember?_name] at hm
      cases hm
    rw [Veil.entry_of_ne hk]
    exact Dict.mapValues_insert

theorem extract_veil (c : Context) (m : Dict) :
    (extract c m).veil drawn = extract (c.veil drawn) (Veil.metadata drawn m) := by
  have hbaggage : ∀ (l : List (String × String)) (b : Dict), Veil.baggage drawn (l.foldl addMember b) =
      (l.map fun e => (e.1, Veil.entry drawn e.1 e.2)).foldl addMember (Veil.baggage drawn b) := by
    intro l
    induction l with
    | nil => exact fun _ => rfl
    | cons e l ih =>
      intro b
      rw [List.foldl_cons, ih, addMember_veil]
      rfl
  have htrace : ((Veil.metadata drawn m).get? traceKey).bind (fun s => (TraceParent.parse s).toOption) =
      ((m.get? traceKey).bind fun s => (TraceParent.parse s).toOption).map (Veil.parent drawn) := by
    rw [Veil.get?_metadata]
    cases m.get? traceKey with
    | none => rfl
    | some s =>
      rw [Option.map_some, Option.bind_some, Option.bind_some, Veil.entry_of_ne traceKey_ne, Veil.parse_veiled]
  have hid : (Veil.metadata drawn m).get? correlationKey = (m.get? correlationKey).map (Veil.text drawn) := by
    rw [Veil.get?_metadata]
    exact congrArg (Option.map · _) (funext fun _ => Veil.entry_of_ne correlationKey_ne)
  have hlist : (Veil.metadata drawn m).toList = m.toList.map fun e => (e.1, Veil.entry drawn e.1 e.2) := rfl
  simp only [extract, Context.veil, hid, htrace, hlist, hbaggage, Option.map_or]

theorem inject_veil (c : Context) (m : Dict) :
    Veil.metadata drawn (inject c m) = inject (c.veil drawn) (Veil.metadata drawn m) := by
  have hbaggage : ∀ (l : List (String × String)) (m : Dict),
      Veil.metadata drawn (l.foldl (fun m e => m.insert (baggageKey e.1) e.2) m) =
        (l.map fun e => (e.1, Veil.text drawn e.2)).foldl (fun m e => m.insert (baggageKey e.1) e.2)
          (Veil.metadata drawn m) := by
    intro l
    induction l with
    | nil => exact fun _ => rfl
    | cons e l ih =>
      intro m
      rw [List.foldl_cons, ih, Veil.metadata_insert, Veil.entry_of_ne (baggageKey_ne e.1)]
      rfl
  unfold inject
  rw [hbaggage]
  show List.foldl _ _ ((c.baggage.toList.map _)) = List.foldl _ _ ((c.veil drawn).baggage.toList)
  congr 1
  simp only [Context.veil]
  cases c.correlationId <;> cases c.trace <;>
    simp only [Option.map_some, Option.map_none, Veil.metadata_insert, Veil.entry_of_ne correlationKey_ne,
      Veil.entry_of_ne traceKey_ne, Veil.text_render]

/-! ### Drawing identifiers -/

variable {ids : Supply}

/-- A supply of identifiers that nobody sees behind the veil. -/
def Supply.Hidden (drawn : Uuid → Prop) (s : Supply) : Prop := ∀ n, Veil.Hides drawn (s.draws n)

def Supply.masks : Supply := ⟨fun _ => .mask, 0⟩

theorem Supply.masks_hidden : masks.Hidden drawn := fun _ => .inr rfl

theorem Context.startSpan_veil (c : Context) (h : ids.Hidden drawn) :
    (c.startSpan ids).1.veil drawn = ((c.veil drawn).startSpan Supply.masks).1 := by
  unfold startSpan
  cases ht : c.trace with
  | none =>
    simp only [Context.veil, ht, Option.map_none, Option.map_some, Context.withTrace]
    exact congrArg (fun p => ({ c.veil drawn with trace := some p } : Context)) (Veil.parent_root (h _) (h _))
  | some p =>
    simp only [Context.veil, ht, Option.map_some, Context.withTrace]
    exact congrArg (fun p => ({ c.veil drawn with trace := some p } : Context)) (Veil.parent_child (h _))

end Relay
