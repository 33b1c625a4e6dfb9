import Relay.Proofs.Broker.Dealings
import Relay.Proofs.Causal.Hops
import Relay.Proofs.Router.Supply

/-! The attempts at one message. A broker identifies a message and restores its context before the retry stage
    and opens the span behind it, so all calls of the handler that the dealing with the message tells of see the
    same message under the same identifier, each in a span from a draw of its own (`Call.Moves.pursues`). -/

namespace Relay

/-! ### What a handler is called with -/

/-- A call of a handler, by what it is given. -/
structure HandlerCall where
  context : Context
  input : Input

namespace Event

def attempt? : Event → Option HandlerCall
  | .called _ _ ctx _ i => some ⟨ctx, i⟩
  | _ => none

theorem attempt?_of_isCall {e : Event} (h : e.isCall = false) : e.attempt? = none := by
  cases e with
  | called _ _ _ _ _ => cases h
  | taken _ _ | settled _ _ _ | entered _ | left _ | returned _ _ _ _ | spanned _ _ | noticed _ => rfl

theorem filterMap_attempt? {es : List Event} (h : ∀ e ∈ es, e.isCall = false) : es.filterMap attempt? = [] :=
  List.filterMap_eq_nil_iff.mpr fun e he => attempt?_of_isCall (h e he)

end Event

/-- The calls of the handler for the message. -/
def Dealing.attempts (d : Dealing) : List HandlerCall := d.events.filterMap Event.attempt?

@[simp] theorem Dealing.attempts_andThen (d : Dealing) (es : List Event) :
    (d.andThen es).attempts = d.attempts ++ es.filterMap Event.attempt? := by
  simp [attempts, andThen]

def HandlerCall.span? (a : HandlerCall) : Option (HexId 16) := a.context.trace.map (·.spanId)

/-- The trace parent that the metadata of a message carry, if that can be read. -/
def Message.parent? (m : Message) : Option TraceParent :=
  (m.metadata.get? traceKey).bind fun s => (TraceParent.parse s).toOption

/-- What a call of a handler sees of a message under its identifier: the message itself or the value that it stands
    for, the baggage of its metadata, and its trace. -/
structure HandlerCall.Sees (h : Handler) (m : Message) (id : String) (a : HandlerCall) : Prop where
  correlation : a.context.correlationId = some id
  baggage : ∀ member, a.context.baggage.get? member =
    if member = "" then none else m.metadata.get? (baggageKey member)
  trace : ∀ p, m.parent? = some p → ∃ span, a.context.trace = some { p with spanId := span }
  given : h.Given (m.withMetadata correlationKey id) a.input

/-- The identifier of a message is its own if that is not empty, or it comes from a draw. -/
inductive Message.Named (draws : Nat → Uuid) (m : Message) : String → Option Nat → Prop where
  | own {id : String} : m.metadata.get? correlationKey = some id → id ≠ "" → Named draws m id none
  | drawn {n : Nat} : (m.metadata.get? correlationKey).getD "" = "" → Named draws m (draws n).text (some n)

/-- All calls of the handler that a dealing tells of see the message under one identifier. If spans are opened, each
    call is in the span of a draw of its own, made after that of the identifier and those of the calls before. -/
structure Dealing.Shares (draws : Nat → Uuid) (h : Handler) (spanned : Prop) (d : Dealing) (id : String)
    (new : Option Nat) (spans : List Nat) : Prop where
  nonempty : id ≠ ""
  named : d.message.Named draws id new
  sees : ∀ a ∈ d.attempts, a.Sees h d.message id
  opened : spanned → d.attempts.map HandlerCall.span? = spans.map fun n => some (draws n).spanId
  anew : (new.toList ++ spans).Pairwise (· < ·)

/-- The stages of a handler of values open a span for each of its calls. -/
def Broker.OpensSpans (stages : List Stage) : Prop := ∃ role handler, .dispatch role handler ∈ stages

theorem Broker.IsChain.length_of_opensSpans {p : RetryPolicy} {stages : List Stage} (hb : IsChain p stages)
    (h : OpensSpans stages) : stages.length = 5 := by
  rcases hb with rfl | ⟨role, handler, rfl⟩
  · obtain ⟨role, handler, h⟩ := h
    simp [defaultStages] at h
  · rfl

/-! ### A message and its identifier -/

namespace Message
variable {draws : Nat → Uuid} {m m' : Message} {id : String} {new : Option Nat}

theorem withMetadata_self {key value : String} (h : m.metadata.get? key = some value) :
    m.withMetadata key value = m := by
  have hd : m.metadata.insert key value = m.metadata := Dict.eq_of_get?_eq fun k => by
    rw [Dict.get?_insert]
    split
    · rename_i hk
      rw [hk, h]
    · rfl
  rw [withMetadata, hd]

/-- A message that has been identified is not identified again. -/
theorem Identified.eq_of_withMetadata (h : (m.withMetadata correlationKey id).Identified m') (hne : id ≠ "") :
    m' = m.withMetadata correlationKey id := by
  cases h with
  | kept _ => rfl
  | new he =>
    rw [withMetadata, Dict.get?_insert, if_pos rfl] at he
    exact absurd he hne

theorem Named.ne (h : m.Named draws id new) : id ≠ "" := by
  cases h with
  | own _ hne => exact hne
  | drawn _ => exact Uuid.text_ne_empty _

end Message

namespace Dealing.Shares
variable {draws : Nat → Uuid} {h : Handler} {spanned : Prop} {d : Dealing} {id : String} {new : Option Nat}
  {spans : List Nat} {es : List Event}

theorem first (hn : d.message.Named draws id new) (ha : d.attempts = []) : d.Shares draws h spanned id new [] where
  nonempty := hn.ne
  named := hn
  sees a hmem := by
    rw [ha] at hmem
    cases hmem
  opened _ := by
    rw [ha]
    rfl
  anew := by cases new <;> simp

theorem silent (hd : d.Shares draws h spanned id new spans) (he : es.filterMap Event.attempt? = []) :
    (d.andThen es).Shares draws h spanned id new spans := by
  have ha : (d.andThen es).attempts = d.attempts := by rw [attempts_andThen, he, List.append_nil]
  exact ⟨hd.nonempty, hd.named, ha ▸ hd.sees, ha ▸ hd.opened, hd.anew⟩

/-- One more call, where no spans are opened. -/
theorem call {a : HandlerCall} (hd : d.Shares draws h spanned id new spans) (he : es.filterMap Event.attempt? = [a])
    (ha : a.Sees h d.message id) (hn : ¬spanned) : (d.andThen es).Shares draws h spanned id new spans where
  nonempty := hd.nonempty
  named := hd.named
  sees b hb := by
    rw [attempts_andThen, he, List.mem_append, List.mem_singleton] at hb
    rcases hb with hb | rfl
    · exact hd.sees b hb
    · exact ha
  opened hs := absurd hs hn
  anew := hd.anew

/-- One more call, in the span of a later draw. -/
theorem callIn {a : HandlerCall} {k : Nat} (hd : d.Shares draws h spanned id new spans)
    (he : es.filterMap Event.attempt? = [a]) (ha : a.Sees h d.message id) (hk : ∀ n ∈ new.toList ++ spans, n < k)
    (hspan : a.span? = some (draws k).spanId) : (d.andThen es).Shares draws h spanned id new (spans ++ [k]) where
  nonempty := hd.nonempty
  named := hd.named
  sees b hb := by
    rw [attempts_andThen, he, List.mem_append, List.mem_singleton] at hb
    rcases hb with hb | rfl
    · exact hd.sees b hb
    · exact ha
  opened hs := by
    rw [attempts_andThen, he, List.map_append, List.map_append, hd.opened hs, List.map_singleton, List.map_singleton,
      hspan]
  anew := by
    rw [← List.append_assoc, List.pairwise_append]
    exact ⟨hd.anew, List.pairwise_singleton _ _, fun n hn k' hk' => List.mem_singleton.mp hk' ▸ hk n hn⟩

end Dealing.Shares

/-- What a call sees in a context that was restored from the metadata of an identified message. -/
theorem HandlerCall.sees_of_restored {h : Handler} {m : Message} {id : String} {tok : Token} {ctx : Context} {i : Input}
    (hr : Context.Restored tok (m.withMetadata correlationKey id) ctx)
    (hi : h.Given (m.withMetadata correlationKey id) i) : HandlerCall.Sees h m id ⟨ctx, i⟩ := by
  have hother : ∀ key, key ≠ correlationKey →
      (m.withMetadata correlationKey id).metadata.get? key = m.metadata.get? key := fun key hk => by
    rw [Message.withMetadata, Dict.get?_insert, if_neg hk]
  have htrace : (extract { token := tok } (m.withMetadata correlationKey id).metadata).trace = m.parent? := by
    rw [extract, hother traceKey (by decide)]
    exact Option.or_none
  have hplain : HandlerCall.Sees h m id ⟨extract { token := tok } (m.withMetadata correlationKey id).metadata, i⟩ := by
    refine ⟨?_, fun member => ?_, fun p hp => ⟨p.spanId, htrace.trans hp⟩, hi⟩
    · simp [extract, Message.withMetadata, Dict.get?_insert]
    · rw [get?_extract_baggage, hother _ (baggageKey_ne_correlationKey member)]
      simp
  cases hr with
  | plain => exact hplain
  | @spanned ids =>
    obtain ⟨-, q, k, he, -, -, -, hq⟩ := Context.startSpan_spec
      (extract { token := tok } (m.withMetadata correlationKey id).metadata) ids
    rw [he]
    exact ⟨hplain.correlation, hplain.baggage, fun p hp => ⟨q.spanId, congrArg some (hq p (htrace.trans hp))⟩, hi⟩

/-- A retry stage that has been entered has three stages around it. -/
theorem Entered.retryPlace_lt_of_mem {tok : Token} {p : RetryPolicy} {stages rest : List Stage} {fs : List Frame}
    (he : Entered tok stages fs rest) (hb : Broker.IsChain p stages) {policy : RetryPolicy} {n : Nat} {ctx : Context}
    {m : Message} {rest' : List Stage} (hmem : .retry policy n ctx m rest' ∈ fs) : Broker.retryPlace < fs.length := by
  induction he with
  | nil => cases hmem
  | guard _ ih | correlation _ ih | propagation _ ih | dispatch _ ih =>
    rcases List.mem_cons.mp hmem with heq | hmem
    · cases heq
    · exact Nat.lt_succ_of_lt (ih hmem)
  | retry he _ ih =>
    rcases List.mem_cons.mp hmem with - | hmem
    · exact Nat.lt_succ_of_le (Nat.le_of_eq (hb.place he).symm)
    · exact Nat.lt_succ_of_lt (ih hmem)

/-! ### The call of a message -/

/-- A dealing tells of no call, or of calls that share one identity, with draws that are its own. -/
def Dealing.Told (draws : Nat → Uuid) (mine : Nat → Prop) (h : Handler) (spanned : Prop) (d : Dealing) : Prop :=
  d.attempts = [] ∨ ∃ id new spans, d.Shares draws h spanned id new spans ∧ ∀ n ∈ new.toList ++ spans, mine n

namespace Call
variable {draws : Nat → Uuid} {mine mine' : Nat → Prop} {p : RetryPolicy} {stages : List Stage} {tok : Token}
  {h : Handler} {spanned : Prop} {d : Dealing} {task : Nat} {w w' : World} {c c' : Call}

/-- A call that is under way for a message with this identifier. -/
structure Names (draws : Nat → Uuid) (mine : Nat → Prop) (tok : Token) (h : Handler) (spanned : Prop) (d : Dealing)
    (id : String) (new : Option Nat) (spans : List Nat) (c : Call) : Prop where
  shares : d.Shares draws h spanned id new spans
  carries : c.Carries tok (d.message.withMetadata correlationKey id)
  own : ∀ n ∈ new.toList ++ spans, mine n
  /-- Behind the dispatch stage there is a span in which the handler has not been called yet. -/
  opened : ∀ {rest : List Stage} {ctx : Context} {m : Message}, c.phase = .entering rest ctx m → c.frames.length = 5 →
    ∃ k, mine k ∧ (∀ n ∈ new.toList ++ spans, n < k) ∧ ctx.trace.map (·.spanId) = some (draws k).spanId

/-- What a dealing tells of the calls of the handler while its call is under way. -/
inductive Pursues (draws : Nat → Uuid) (mine : Nat → Prop) (tok : Token) (h : Handler) (spanned : Prop) (d : Dealing)
    (c : Call) : Prop where
  | unnamed {rest : List Stage} {ctx : Context} : d.attempts = [] → c.phase = .entering rest ctx d.message →
      c.frames.length ≤ 1 → Pursues draws mine tok h spanned d c
  | named {id : String} {new : Option Nat} {spans : List Nat} : c.Names draws mine tok h spanned d id new spans →
      Pursues draws mine tok h spanned d c

theorem Pursues.told (hc : c.Pursues draws mine tok h spanned d) : d.Told draws mine h spanned := by
  cases hc with
  | unnamed ha _ _ => exact .inl ha
  | named hn => exact .inr ⟨_, _, _, hn.shares, hn.own⟩

theorem Pursues.mono (hc : c.Pursues draws mine tok h spanned d) (hm : ∀ n, mine n → mine' n) :
    c.Pursues draws mine' tok h spanned d := by
  cases hc with
  | unnamed ha hp hl => exact .unnamed ha hp hl
  | named hn =>
    refine .named ⟨hn.shares, hn.carries, fun n hmem => hm n (hn.own n hmem), fun hp hl => ?_⟩
    obtain ⟨k, hk, hlt, hspan⟩ := hn.opened hp hl
    exact ⟨k, hm k hk, hlt, hspan⟩

/-- The second stage of a broker has named the message. -/
theorem Names.first {id : String} {new : Option Nat} {rest rest' : List Stage} {ctx : Context} {es : List Event}
    (hb : Broker.IsChain p stages) (he : Entered tok stages c.frames rest') (hl : c.frames.length = 1)
    (hn : d.message.Named draws id new) (hmine : ∀ n ∈ new.toList, mine n) (ha : (d.andThen es).attempts = []) :
    (c.push .plain rest ctx (d.message.withMetadata correlationKey id)).Names draws mine tok h spanned (d.andThen es) id
      new [] where
  shares := .first hn ha
  carries.entering hp := by
    have hid : ((d.message.withMetadata correlationKey id).metadata.get? correlationKey).getD "" ≠ "" := by
      rw [Message.withMetadata, Dict.get?_insert, if_pos rfl]
      exact hn.ne
    cases hp
    rw [push, List.length_cons, hl]
    exact .identified (.kept hid)
  carries.retrying hmem := by
    rcases List.mem_cons.mp hmem with heq | hmem
    · cases heq
    · have hlt := he.retryPlace_lt_of_mem hb hmem
      rw [hl] at hlt
      exact absurd hlt (by decide)
  own := by simpa using hmine
  opened _ hl' := by
    rw [push, List.length_cons, hl] at hl'
    cases hl'

/-- A step of a call calls the handler, or writes down no such call. -/
theorem Moves.calls (hm : c.Moves task w w' c') :
    (∃ ctx m h i n p new, c.phase = .entering [] ctx m ∧ c.handler = some h ∧ h.Given m i ∧
      c' = c.goto (.acting n p ctx) ∧ w'.history task = w.history task ++ new ∧
      new.filterMap Event.attempt? = [⟨ctx, i⟩]) ∨
    ∃ new, w'.history task = w.history task ++ new ∧ new.filterMap Event.attempt? = [] := by
  have quiet : (∀ ctx m, c.phase ≠ .entering [] ctx m) →
      ∃ new, w'.history task = w.history task ++ new ∧ new.filterMap Event.attempt? = [] := fun hn => by
    have ht : World.Touches (fun _ => False) c.Writes task w w' := hm.touches
    obtain ⟨new, hh, hw⟩ := ht.history
    refine ⟨new, hh, Event.filterMap_attempt? fun e he => Bool.eq_false_iff.mpr fun hcall => ?_⟩
    obtain ⟨ctx, m, -, hp, -⟩ := (hw e he).2 hcall
    exact hn ctx m hp
  cases hm with
  | called hp hh hi _ => exact .inl ⟨_, _, _, _, _, _, _, hp, hh, hi, rfl, noted_two rfl, rfl⟩
  | refused _ _ _ _ => exact .inr ⟨_, noted rfl, rfl⟩
  | stays | unhandled _ _ | undecoded _ _ _ _ => exact .inr ⟨[], (List.append_nil _).symm, rfl⟩
  | guarded hp | marked hp _ | unmarked hp _ | restored hp | tried hp | passed hp _ | answered hp _ | dispatched hp
  | returned hp _ _ | brokeOff hp _ | slept hp | cancelled hp | awaited hp | unpublished hp _ | published hp _
  | unwritten hp _ | unsent hp _ _ | sent hp _ _ | woke hp _ | freed hp _ | delivered hp _ | undelivered hp _
  | delivers hp _ | aborted hp _ _ | retried hp _ _ _ | strayed hp _ | recovered hp _ | unwound hp _ _
  | filtered hp _ _ | unretryable hp _ _ | backsOff hp _ _ _ | exhausted hp _ _ _ | propagated hp _ _
  | swallowed hp _ _ | left hp _ _ _ _ =>
    exact .inr (quiet (by simp [hp]))

/-- A call that is behind five stages on its way in was there before, or has just opened a span. -/
theorem Moves.opens (hm : c.Moves task w w' c') (hb : Broker.IsChain p stages) (hs : c.Stands tok stages)
    {rest : List Stage} {ctx : Context} {m : Message} (hp' : c'.phase = .entering rest ctx m)
    (hl : c'.frames.length = 5) : c' = c ∨ ∃ k, w.ids.used ≤ k ∧ k < w'.ids.used ∧
      ctx.trace.map (·.spanId) = some (w.ids.draws k).spanId := by
  have shallow : ∀ {g : Stage} {rest : List Stage} {ctx : Context} {m : Message},
      c.phase = .entering (g :: rest) ctx m → c.frames.length + 1 = 5 → Broker.place g = 4 := fun hp hl => by
    have := hb.place (hs.entering hp).1
    omega
  cases hm with
  | stays | delivers _ _ => exact .inl rfl
  | guarded hp | marked hp _ | unmarked hp _ | restored hp | tried hp => cases shallow hp hl
  | passed hp _ => exact absurd ((hs.entering hp).1.suffix.mem List.mem_cons_self) (hb.not_filter _)
  | @dispatched role handler rest ctx m hp =>
    obtain ⟨-, q, k, he, hspan, hle, hlt, -⟩ := ctx.startSpan_spec w.ids
    cases hp'
    refine .inr ⟨k, hle, hlt, ?_⟩
    show (ctx.startSpan w.ids).1.trace.map (·.spanId) = _
    rw [he]
    exact congrArg some hspan
  | retried hp hf _ _ =>
    obtain ⟨_, _, _, _, _, _, -, he⟩ := hs.backoff hp
    rw [hf] at he
    cases he with
    | retry he _ =>
      have hplace : _ = 3 := hb.place he
      simp only [List.length_cons] at hl
      omega
  | unhandled _ _ | undecoded _ _ _ _ | refused _ _ _ _ | called _ _ _ _ | answered _ _ | returned _ _ _ | brokeOff _ _
  | slept _ | cancelled _ | awaited _ | unpublished _ _ | published _ _ | unwritten _ _ | unsent _ _ _ | sent _ _ _
  | woke _ _ | freed _ _ | delivered _ _ | undelivered _ _ | aborted _ _ _ | strayed _ _ | recovered _ _ | unwound _ _ _
  | filtered _ _ _ | unretryable _ _ _ | backsOff _ _ _ _ | exhausted _ _ _ _ | propagated _ _ _ | swallowed _ _ _
  | left _ _ _ _ _ => cases hp'

section Step
variable (hm : c.Moves task w w' c') (hb : Broker.IsChain p stages) (hs : c.Stands tok stages)
  (hdraws : w.ids.draws = draws)
  (hkeep : ∀ n, mine n → n < w.ids.used ∧ mine' n) (hnew : ∀ n, w.ids.used ≤ n → n < w'.ids.used → mine' n)
include hm hb hs hdraws hkeep hnew

/-- A step of a call whose message has been identified. -/
theorem Moves.names {id : String} {new : Option Nat} {spans : List Nat} (hh : c.handler = some h)
    (hspanned : spanned → stages.length = 5) (hc : c.Names draws mine tok h spanned d id new spans) :
    ∃ es spans', w'.history task = w.history task ++ es ∧
      c'.Names draws mine' tok h spanned (d.andThen es) id new spans' := by
  have hcarries := hm.carries hb hs hc.carries
  have hown : ∀ n ∈ new.toList ++ spans, mine' n := fun n hn => (hkeep n (hc.own n hn)).2
  rcases hm.calls with ⟨ctx, m, h', i, n, prog, es, hp, hh', hi, rfl, hhist, hes⟩ | ⟨es, hhist, hes⟩
  · -- the handler is called behind all stages
    rw [hh] at hh'
    cases hh'
    have hlength : c.frames.length = stages.length := (hs.entering hp).1.length
    have hdeep := hb.length
    have hpass := hc.carries.entering hp
    obtain rfl := (hpass.marked (by omega)).eq_of_withMetadata hc.shares.nonempty
    have hsees := HandlerCall.sees_of_restored (hpass.given (by omega)) hi
    by_cases hsp : spanned
    · obtain ⟨k, hk, hlt, hspan⟩ := hc.opened hp (hlength.trans (hspanned hsp))
      refine ⟨es, spans ++ [k], hhist, hc.shares.callIn hes hsees hlt hspan, hcarries, fun n hn => ?_, nofun⟩
      rw [← List.append_assoc, List.mem_append, List.mem_singleton] at hn
      rcases hn with hn | rfl
      · exact hown n hn
      · exact (hkeep n hk).2
    · exact ⟨es, spans, hhist, hc.shares.call hes hsees hsp, hcarries, hown, nofun⟩
  · refine ⟨es, spans, hhist, hc.shares.silent hes, hcarries, hown, fun hp' hl => ?_⟩
    rcases hm.opens hb hs hp' hl with rfl | ⟨k, hle, hlt, hspan⟩
    · obtain ⟨k, hk, hlt, hspan⟩ := hc.opened hp' hl
      exact ⟨k, (hkeep k hk).2, hlt, hspan⟩
    · -- what was drawn before the step is below what is drawn in it
      exact ⟨k, hnew k hle hlt, fun n hn => Nat.lt_of_lt_of_le (hkeep n (hc.own n hn)).1 hle, hdraws ▸ hspan⟩

omit hkeep in
/-- A step of a call whose message has not been identified yet. -/
theorem Moves.identifies {rest : List Stage} {ctx : Context} (ha : d.attempts = [])
    (hp : c.phase = .entering rest ctx d.message) (hl : c.frames.length ≤ 1) :
    ∃ es, w'.history task = w.history task ++ es ∧ c'.Pursues draws mine' tok h spanned (d.andThen es) := by
  have he := (hs.entering hp).1
  have hdeep := hb.length
  have hlength := he.length
  have hplace : ∀ {g : Stage} {rest' : List Stage} {ctx : Context} {m : Message},
      c.phase = .entering (g :: rest') ctx m → Broker.place g ≤ 1 := fun hp' => by
    have := hb.place (hs.entering hp').1
    omega
  have hsilent : ∀ {es : List Event}, es.filterMap Event.attempt? = [] → (d.andThen es).attempts = [] := fun hes => by
    rw [Dealing.attempts_andThen, ha, hes]
    rfl
  cases hm with
  | stays => exact ⟨[], (List.append_nil _).symm, .unnamed (hsilent rfl) hp hl⟩
  | guarded hp' =>
    have hzero : c.frames.length = 0 := hb.place (hs.entering hp').1
    rw [hp] at hp'
    cases hp'
    exact ⟨_, noted rfl, .unnamed (hsilent rfl) rfl (Nat.le_of_eq (congrArg (· + 1) hzero))⟩
  | marked hp' hid =>
    have hone : c.frames.length = 1 := hb.place (hs.entering hp').1
    rw [hp] at hp'
    cases hp'
    subst hdraws
    refine ⟨_, noted rfl, .named (.first hb he hone (.drawn hid) (fun n hn => ?_) (hsilent rfl))⟩
    rw [Option.toList_some, List.mem_singleton] at hn
    exact hn ▸ hnew w.ids.used (Nat.le_refl _) (Nat.lt_succ_self _)
  | @unmarked rest' ctx' m hp' hid =>
    have hone : c.frames.length = 1 := hb.place (hs.entering hp').1
    rw [hp] at hp'
    cases hp'
    cases hown : d.message.metadata.get? correlationKey with
    | none =>
      rw [hown] at hid
      exact absurd rfl hid
    | some id =>
      rw [hown] at hid
      have hfirst : (c.push .plain rest' ctx (d.message.withMetadata correlationKey id)).Names draws mine' tok h spanned
        (d.andThen [.entered c.frames.length]) id none [] := .first hb he hone (.own hown hid) nofun (hsilent rfl)
      rw [Message.withMetadata_self hown] at hfirst
      exact ⟨_, noted rfl, .named hfirst⟩
  | restored hp' | tried hp' | dispatched hp' =>
    have := hplace hp'
    simp [Broker.place, Broker.retryPlace] at this
  | passed hp' _ | answered hp' _ => exact absurd ((hs.entering hp').1.suffix.mem List.mem_cons_self) (hb.not_filter _)
  | unhandled hp' _ | undecoded hp' _ _ _ | refused hp' _ _ _ | called hp' _ _ _ =>
    rw [hp] at hp'
    cases hp'
    simp only [List.length_nil] at hlength
    omega
  | returned hp' _ _ | brokeOff hp' _ | slept hp' | cancelled hp' | awaited hp' | unpublished hp' _ | published hp' _
  | unwritten hp' _ | unsent hp' _ _ | sent hp' _ _ | woke hp' _ | freed hp' _ | delivered hp' _ | undelivered hp' _
  | delivers hp' _ | aborted hp' _ _ | retried hp' _ _ _ | strayed hp' _ | recovered hp' _ | unwound hp' _ _
  | filtered hp' _ _ | unretryable hp' _ _ | backsOff hp' _ _ _ | exhausted hp' _ _ _ | propagated hp' _ _
  | swallowed hp' _ _ | left hp' _ _ _ _ =>
    rw [hp] at hp'
    cases hp'

/-- A step of a call adds to its dealing what this is to tell of the calls of the handler. -/
theorem Moves.pursues (hh : c.handler = some h) (hspanned : spanned → stages.length = 5)
    (hc : c.Pursues draws mine tok h spanned d) :
    ∃ es, w'.history task = w.history task ++ es ∧ c'.Pursues draws mine' tok h spanned (d.andThen es) := by
  cases hc with
  | unnamed ha hp hl => exact hm.identifies hb hs hdraws hnew ha hp hl
  | named hn =>
    obtain ⟨es, _, hhist, hn'⟩ := hm.names hb hs hdraws hkeep hnew hh hspanned hn
    exact ⟨es, hhist, .named hn'⟩

end Step
end Call
end Relay
