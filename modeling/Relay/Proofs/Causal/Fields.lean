import Relay.Dict.Lemmas
import Relay.Pipeline.Handler
import Relay.Proofs.Isolation.Identifiers
import Relay.Span

/-! The causal fields across one hop. What `inject` writes into the metadata of a message `extract` reads
    back, but for a member of baggage without a name; so the context that is restored at the other end
    follows the one that the message was sent in (`Context.Follows`), and whatever follows that context
    follows this one. -/

namespace Relay

/-! ### Keys -/

theorem dropStart?_eq_some_iff {start cs rest : List Char} : dropStart? start cs = some rest ↔ cs = start ++ rest := by
  induction start generalizing cs with
  | nil => simp [dropStart?]
  | cons s start ih =>
    cases cs with
    | nil => simp [dropStart?]
    | cons c cs =>
      unfold dropStart?
      by_cases hs : s = c
      · rw [if_pos hs, ih, hs]
        simp
      · rw [if_neg hs]
        exact iff_of_false nofun fun h => hs (List.cons.inj h).1.symm

theorem toList_baggageKey (member : String) : (baggageKey member).toList = baggagePrefix.toList ++ member.toList :=
  String.toList_append

theorem baggageKey_inj {a b : String} : baggageKey a = baggageKey b ↔ a = b := by
  refine ⟨fun h => ?_, congrArg baggageKey⟩
  have hl := congrArg String.toList h
  rw [toList_baggageKey, toList_baggageKey] at hl
  exact String.toList_inj.mp (List.append_cancel_left hl)

/-- The keys that name members of baggage are those of members with a name. -/
theorem baggageMember?_eq_some_iff {key member : String} :
    baggageMember? key = some member ↔ member ≠ "" ∧ key = baggageKey member := by
  unfold baggageMember?
  constructor
  · intro h
    split at h
    · rename_i c cs hd
      cases h
      refine ⟨fun he => ?_, String.toList_inj.mp ?_⟩
      · have hl := congrArg String.toList he
        rw [String.toList_ofList] at hl
        cases hl
      · rw [toList_baggageKey, String.toList_ofList]
        exact dropStart?_eq_some_iff.mp hd
    · cases h
  · rintro ⟨hne, rfl⟩
    have hd : dropStart? baggagePrefix.toList (baggageKey member).toList = some member.toList :=
      dropStart?_eq_some_iff.mpr (toList_baggageKey member)
    cases hl : member.toList with
    | nil => exact absurd (String.toList_inj.mp hl) hne
    | cons c cs =>
      rw [hd, hl]
      dsimp only
      rw [← hl, String.ofList_toList]

theorem baggageKey_ne_correlationKey (member : String) : baggageKey member ≠ correlationKey := fun h => by
  have := congrArg (fun s : String => s.toList.head?) h
  simp [toList_baggageKey, baggagePrefix, correlationKey] at this

theorem baggageKey_ne_traceKey (member : String) : baggageKey member ≠ traceKey := fun h => by
  have := congrArg (fun s : String => s.toList.head?) h
  simp [toList_baggageKey, baggagePrefix, traceKey] at this

/-! ### What is written and what is read -/

namespace Entries

theorem lookup_eq_none_of_lt {k : String} {l : List (String × String)} (h : ∀ e ∈ l, k < e.1) : l.lookup k = none :=
  List.lookup_eq_none_iff.mpr fun e he => by
    simpa using fun heq : k = e.1 => Std.lt_irrefl (heq ▸ h e he)

end Entries

theorem get?_writeBaggage {l : List (String × String)} (hl : Entries.Sorted l) (m : Dict) (member : String) :
    (l.foldl (fun m e => m.insert (baggageKey e.1) e.2) m).get? (baggageKey member) =
      (l.lookup member).or (m.get? (baggageKey member)) := by
  induction l generalizing m with
  | nil => rfl
  | cons e l ih =>
    obtain ⟨hlt, hl⟩ := List.pairwise_cons.mp hl
    rw [List.foldl_cons, ih hl, Dict.get?_insert, Entries.lookup_cons]
    by_cases hm : member = e.1
    · rw [if_pos hm, if_pos (congrArg baggageKey hm), Entries.lookup_eq_none_of_lt (hm ▸ hlt)]
      rfl
    · rw [if_neg hm, if_neg fun h => hm (baggageKey_inj.mp h)]

theorem get?_writeBaggage_of_ne {l : List (String × String)} (m : Dict) {key : String}
    (hk : ∀ member, key ≠ baggageKey member) :
    (l.foldl (fun m e => m.insert (baggageKey e.1) e.2) m).get? key = m.get? key := by
  induction l generalizing m with
  | nil => rfl
  | cons e l ih => rw [List.foldl_cons, ih, Dict.get?_insert, if_neg (hk e.1)]

theorem get?_readBaggage {l : List (String × String)} (hl : Entries.Sorted l) (b : Dict) (member : String) :
    (l.foldl addMember b).get? member =
      if member = "" then b.get? "" else (l.lookup (baggageKey member)).or (b.get? member) := by
  induction l generalizing b with
  | nil =>
    by_cases hm : member = ""
    · rw [if_pos hm, hm]
      rfl
    · rw [if_neg hm]
      rfl
  | cons e l ih =>
    obtain ⟨hlt, hl⟩ := List.pairwise_cons.mp hl
    rw [List.foldl_cons, ih hl, Entries.lookup_cons]
    unfold addMember
    cases hk : baggageMember? e.1 with
    | none =>
      by_cases hm : member = ""
      · rw [if_pos hm, if_pos hm]
      · have hne : baggageKey member ≠ e.1 := fun h => by
          rw [baggageMember?_eq_some_iff.mpr ⟨hm, h.symm⟩] at hk
          cases hk
        rw [if_neg hm, if_neg hm, if_neg hne]
    | some other =>
      obtain ⟨hother, he⟩ := baggageMember?_eq_some_iff.mp hk
      rw [Dict.get?_insert, Dict.get?_insert, if_neg (Ne.symm hother), he]
      by_cases hm : member = ""
      · rw [if_pos hm, if_pos hm]
      · rw [if_neg hm, if_neg hm]
        by_cases heq : member = other
        · rw [if_pos heq, if_pos (congrArg baggageKey heq),
            Entries.lookup_eq_none_of_lt fun a ha => by rw [heq, ← he]; exact hlt a ha]
          rfl
        · rw [if_neg heq, if_neg fun h => heq (baggageKey_inj.mp h)]

variable {c d : Context} {m : Dict}

theorem get?_inject_correlation (c : Context) (m : Dict) :
    (inject c m).get? correlationKey = c.correlationId.or (m.get? correlationKey) := by
  unfold inject
  dsimp only
  rw [get?_writeBaggage_of_ne _ fun member => (baggageKey_ne_correlationKey member).symm]
  cases c.trace <;> cases c.correlationId <;> simp [Dict.get?_insert, correlationKey, traceKey]

theorem get?_inject_trace (c : Context) (m : Dict) :
    (inject c m).get? traceKey = (c.trace.map (·.render)).or (m.get? traceKey) := by
  unfold inject
  dsimp only
  rw [get?_writeBaggage_of_ne _ fun member => (baggageKey_ne_traceKey member).symm]
  cases c.trace <;> cases c.correlationId <;> simp [Dict.get?_insert, correlationKey, traceKey]

theorem get?_inject_baggage (c : Context) (m : Dict) (member : String) :
    (inject c m).get? (baggageKey member) = (c.baggage.get? member).or (m.get? (baggageKey member)) := by
  unfold inject
  dsimp only
  rw [get?_writeBaggage (l := c.baggage.toList) c.baggage.sorted]
  refine congrArg (Option.or _) ?_
  have hc := baggageKey_ne_correlationKey member
  have ht := baggageKey_ne_traceKey member
  cases c.trace <;> cases c.correlationId <;> simp [Dict.get?_insert, hc, ht]

theorem get?_extract_baggage (c : Context) (m : Dict) (member : String) : (extract c m).baggage.get? member =
    if member = "" then c.baggage.get? "" else (m.get? (baggageKey member)).or (c.baggage.get? member) :=
  get?_readBaggage m.sorted c.baggage member

/-! ### Contexts that follow each other -/

/-- Context `d` carries on the causal fields of `c`. -/
structure Context.Follows (c d : Context) : Prop where
  correlation : ∀ {id : String}, c.correlationId = some id → id ≠ "" → d.correlationId = some id
  identified : ∃ id, d.correlationId = some id ∧ id ≠ ""
  baggage : d.baggage = c.baggage.erase ""
  trace : ∀ {p : TraceParent}, c.trace = some p → ∃ span, d.trace = some { p with spanId := span }
  traced : ∃ p, d.trace = some p

namespace Context.Follows
variable {ids : Supply}

/-- What follows the context of a span follows the context that it was opened in. -/
theorem of_startSpan (h : (c.startSpan ids).1.Follows d) : c.Follows d := by
  unfold Context.startSpan at h
  split at h
  · rename_i p hp
    refine ⟨h.correlation, h.identified, h.baggage, fun {p'} hp' => ?_, h.traced⟩
    rw [hp] at hp'
    cases hp'
    exact h.trace (p := p.child ids.head) rfl
  · rename_i hp
    exact ⟨h.correlation, h.identified, h.baggage, fun {p'} hp' => (nomatch hp.symm.trans hp'), h.traced⟩

theorem startSpan (h : c.Follows d) : c.Follows (d.startSpan ids).1 := by
  obtain ⟨p, hp⟩ := h.traced
  unfold Context.startSpan
  rw [hp]
  refine ⟨h.correlation, h.identified, h.baggage, fun hc => ?_, _, rfl⟩
  obtain ⟨span, hd⟩ := h.trace hc
  rw [hp] at hd
  cases hd
  exact ⟨_, rfl⟩

end Context.Follows

/-! ### One hop -/

/-- The message of a value that is sent in a span. -/
def Outgoing.message (v : Outgoing) (span : Context) (id : String) (bytes : Payload) : Message where
  id
  topic := v.topic
  payload := bytes
  metadata := inject span ((∅ : Dict).insert nameKey v.topic)

namespace Outgoing
variable {v : Outgoing} {span : Context} {id : String} {bytes : Payload}

theorem get?_message_correlation : (v.message span id bytes).metadata.get? correlationKey = span.correlationId := by
  refine (get?_inject_correlation ..).trans ?_
  simp [Dict.get?_insert, correlationKey, nameKey]

theorem get?_message_trace : (v.message span id bytes).metadata.get? traceKey = span.trace.map (·.render) := by
  refine (get?_inject_trace ..).trans ?_
  simp [Dict.get?_insert, traceKey, nameKey]

theorem get?_message_baggage {member : String} :
    (v.message span id bytes).metadata.get? (baggageKey member) = span.baggage.get? member := by
  have hne : baggageKey member ≠ nameKey := fun h => by
    have := congrArg (fun s : String => s.toList.head?) h
    simp [toList_baggageKey, baggagePrefix, nameKey] at this
  refine (get?_inject_baggage ..).trans ?_
  simp [Dict.get?_insert, hne]

end Outgoing

/-- A message of this value, sent in a context. -/
def Outgoing.Posts (v : Outgoing) (c : Context) (m : Message) : Prop :=
  ∃ id bytes ids, v.written = .ok bytes ∧ m = v.message (c.startSpan ids).1 id bytes

/-- The message with a correlation identifier: its own, or a new one if it has none or an empty one. -/
inductive Message.Identified (m : Message) : Message → Prop where
  | kept : (m.metadata.get? correlationKey).getD "" ≠ "" → Identified m m
  | new {u : Uuid} : (m.metadata.get? correlationKey).getD "" = "" →
      Identified m (m.withMetadata correlationKey u.text)

namespace Message.Identified
variable {m m' : Message}

theorem correlation (h : m.Identified m') : ∃ id, m'.metadata.get? correlationKey = some id ∧ id ≠ "" ∧
    ∀ {id'}, m.metadata.get? correlationKey = some id' → id' ≠ "" → id = id' := by
  cases h with
  | kept hne =>
    cases hid : m.metadata.get? correlationKey with
    | none =>
      rw [hid] at hne
      exact absurd rfl hne
    | some id =>
      rw [hid] at hne
      exact ⟨id, rfl, hne, fun h _ => Option.some.inj h⟩
  | @new u he =>
    refine ⟨u.text, by rw [withMetadata, Dict.get?_insert, if_pos rfl], u.text_ne_empty, fun hid hne => ?_⟩
    rw [hid] at he
    exact absurd he hne

theorem get?_of_ne (h : m.Identified m') {key : String} (hk : key ≠ correlationKey) :
    m'.metadata.get? key = m.metadata.get? key := by
  cases h with
  | kept _ => rfl
  | new _ => rw [withMetadata, Dict.get?_insert, if_neg hk]

theorem payload (h : m.Identified m') : m'.payload = m.payload := by
  cases h <;> rfl

end Message.Identified

/-- The context that is restored from a message follows the one of the span in which it was sent. -/
theorem Outgoing.follows_message {v : Outgoing} {span : Context} {id : String} {bytes : Payload} {m : Message}
    {tok : Token} {p : TraceParent} (hi : (v.message span id bytes).Identified m) (hp : span.trace = some p) :
    span.Follows (extract { token := tok } m.metadata) := by
  obtain ⟨cid, hcid, hne, hsame⟩ := hi.correlation
  have hcorrelation : (extract { token := tok } m.metadata).correlationId = some cid := by
    show (m.metadata.get? correlationKey).or none = some cid
    rw [hcid]
    rfl
  have htrace : (extract { token := tok } m.metadata).trace = some p := by
    show ((m.metadata.get? traceKey).bind fun s => (TraceParent.parse s).toOption).or none = some p
    rw [hi.get?_of_ne (by decide), get?_message_trace, hp, Option.map_some, Option.bind_some, TraceParent.parse_render]
    rfl
  refine ⟨fun {id'} hid hne' => ?_, ⟨cid, hcorrelation, hne⟩, Dict.eq_of_get?_eq fun k => ?_, fun {q} hq => ?_, p,
    htrace⟩
  · rw [hcorrelation, hsame (get?_message_correlation.trans hid) hne']
  · rw [get?_extract_baggage, Dict.get?_erase]
    by_cases hk : k = ""
    · rw [if_pos hk, if_pos hk]
      rfl
    · rw [if_neg hk, if_neg hk, hi.get?_of_ne (baggageKey_ne_correlationKey k), get?_message_baggage]
      exact Option.or_none
  · rw [hp] at hq
    cases hq
    exact ⟨p.spanId, htrace⟩

theorem Outgoing.Posts.follows {v : Outgoing} {m₀ m : Message} {tok : Token} (h : v.Posts c m₀)
    (hi : m₀.Identified m) : c.Follows (extract { token := tok } m.metadata) := by
  obtain ⟨id, bytes, ids, -, rfl⟩ := h
  obtain ⟨p, hp⟩ : ∃ p, (c.startSpan ids).1.trace = some p := by
    unfold Context.startSpan
    split <;> exact ⟨_, rfl⟩
  have hspan : (c.startSpan ids).1.Follows (extract { token := tok } m.metadata) := Outgoing.follows_message hi hp
  exact hspan.of_startSpan

end Relay
