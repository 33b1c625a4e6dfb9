import Relay.Proofs.Broker.Accounts
import Relay.Proofs.Broker.Shutdown
import Relay.Proofs.Router.Failures

/-! Waits that are cut short. Whatever stages of the user's own a broker has inside its retry stage, and
    whatever they do, a worker ends with a failure only if its last message waited for another attempt when
    the run was cancelled; so what is reported of a run that has come to its end is what its retry stage has
    counted. -/

namespace Relay

/-! ### Calls -/

/-- How many waits the counters say were cut short in the retry stage of a broker. -/
def World.aborted (w : World) : Option Nat := (w.counters[Broker.retryPlace]?).map (·.aborted)

namespace Broker

/-- These frames are those of the stages that a broker has around its retry stage, as far as they have been
    entered, and these stages are still ahead. -/
inductive Ahead : List Frame → List Stage → Prop where
  | outside {p : RetryPolicy} {more : List Stage} : 
      Ahead [] (.recoverer :: .correlation :: .propagation :: .retry p :: more)
  | guarded {id topic : String} {p : RetryPolicy} {more : List Stage} :
      Ahead [.guard id topic] (.correlation :: .propagation :: .retry p :: more)
  | marked {id topic : String} {p : RetryPolicy} {more : List Stage} :
      Ahead [.plain, .guard id topic] (.propagation :: .retry p :: more)
  | restored {id topic : String} {p : RetryPolicy} {more : List Stage} :
      Ahead [.plain, .plain, .guard id topic] (.retry p :: more)

/-- The frames of a call that has come to the retry stage of a broker. -/
inductive Within (tok : Token) : List Frame → Prop where
  | retry {policy p : RetryPolicy} {attempt : Nat} {ctx : Context} {m : Message} {rest more : List Stage}
      {outer : List Frame} : ctx.token = tok → Ahead outer (.retry p :: more) →
      Within tok (.retry policy attempt ctx m rest :: outer)
  | deeper {f : Frame} {outer : List Frame} : Within tok outer → Within tok (f :: outer)

variable {tok : Token} {fs outer : List Frame} {f : Frame} {rest : List Stage} {p : RetryPolicy}

namespace Ahead

theorem guard {id topic : String} (h : Ahead fs (.recoverer :: rest)) : Ahead (.guard id topic :: fs) rest := by
  cases h with
  | outside => exact .guarded

theorem correlation (h : Ahead fs (.correlation :: rest)) : Ahead (.plain :: fs) rest := by
  cases h with
  | guarded => exact .marked

theorem propagation (h : Ahead fs (.propagation :: rest)) : Ahead (.plain :: fs) rest := by
  cases h with
  | marked => exact .restored

theorem retryPlace (h : Ahead fs (.retry p :: rest)) : fs.length = retryPlace := by
  cases h with
  | restored => rfl

/-- A stage around the retry stage neither tries again nor looks at the outcome. -/
theorem around (h : Ahead (f :: outer) rest) :
    (f = .plain ∧ outer ≠ [] ∨ ∃ id topic, f = .guard id topic) ∧ ∃ rest', Ahead outer rest' := by
  cases h with
  | guarded => exact ⟨.inr ⟨_, _, rfl⟩, _, @outside {} []⟩
  | marked => exact ⟨.inl ⟨rfl, nofun⟩, _, @guarded _ _ {} []⟩
  | restored => exact ⟨.inl ⟨rfl, nofun⟩, _, @marked _ _ {} []⟩

end Ahead

theorem Within.retryPlace_lt (h : Within tok fs) : retryPlace < fs.length := by
  induction h with
  | retry _ h => simp [h.retryPlace]
  | deeper _ ih => exact Nat.lt_succ_of_lt ih

end Broker

/-- An outcome that leaves nothing to report: a break-off does not if there is a stage to catch it. -/
def Outcome.IsMild (o : Outcome) (fs : List Frame) : Prop :=
  match o with
  | .ok => True
  | .failed e => e.retryable = false
  | .panicked _ => fs ≠ []

namespace Call
variable {tok : Token} {task : Nat} {w w' : World} {c c' : Call} {e : Error}

/-- A call on its way through the stages of a broker, that will leave nothing to report unless its wait for
    the next attempt is cut short. -/
inductive Held (tok : Token) (c : Call) : Prop where
  | entering {rest : List Stage} {ctx : Context} {m : Message} : c.phase = .entering rest ctx m →
      Broker.Ahead c.frames rest → ctx.token = tok → Held tok c
  | inside : Broker.Within tok c.frames → (∀ t e, c.phase = .backoff t e → e.retryable = true) → Held tok c
  | leaving {rest : List Stage} {o : Outcome} : c.phase = .leaving o → Broker.Ahead c.frames rest →
      o.IsMild c.frames → Held tok c

/-- A call that leaves a broker after its wait for the next attempt was cut short. -/
structure Aborted (e : Error) (c : Call) : Prop where
  leaving : c.phase = .leaving (.failed e)
  ahead : ∃ rest, Broker.Ahead c.frames rest

/-- The error of a call that has left its wait in the retry stage of a broker without another attempt. -/
def aborts? (c c' : Call) : Option Error :=
  match c.phase, c'.phase with
  | .backoff _ e, .leaving _ => if c.frames.length = Broker.retryPlace + 1 then some e else none
  | _, _ => none

theorem aborts?_eq_none (h : ∀ t e, c.phase ≠ .backoff t e) : c.aborts? c' = none := by
  unfold aborts?
  split
  · rename_i hp _
    exact absurd hp (h _ _)
  · rfl

end Call

theorem World.count_aborted {w : World} {place : Nat} {f : Counters → Counters}
    (hf : place ≠ Broker.retryPlace ∨ ∀ k, (f k).aborted = k.aborted) : (w.count place f).aborted = w.aborted := by
  rw [aborted, aborted, count, List.getElem?_modify]
  split
  · rename_i hp
    cases w.counters[Broker.retryPlace]? with
    | none => rfl
    | some k => exact congrArg some (hf.resolve_left (fun hn => hn hp) k)
  · simp

namespace Call
variable {tok : Token} {task : Nat} {w w' : World} {c c' : Call} {e : Error}

/-- No wait is cut short in the retry stage of a broker by a call that does not wait there. -/
theorem Moves.aborted_eq (h : c.Moves task w w' c')
    (hn : ∀ t e, c.phase = .backoff t e → c.frames.length ≠ Broker.retryPlace + 1) : w'.aborted = w.aborted := by
  have still : ∀ {x : World}, w.Still x → x.aborted = w.aborted := fun hx => by
    rw [World.aborted, hx.counters, World.aborted]
  cases h with
  | stays | unhandled _ _ | undecoded _ _ _ _ | refused _ _ _ _ | called _ _ _ _ | guarded _ | marked _ _ | unmarked _ _
  | restored _ | passed _ _ | answered _ _ | dispatched _ | returned _ _ _ | brokeOff _ _ | slept _ | cancelled _
  | awaited _ | unwritten _ _ | unsent _ _ _ | woke _ _ | freed _ _ | delivered _ _ | undelivered _ _ | strayed _ _
  | recovered _ _ | unwound _ _ _ | filtered _ _ _ | unretryable _ _ _ | backsOff _ _ _ _ | propagated _ _ _
  | swallowed _ _ _ | left _ _ _ _ _ => rfl
  | tried _ => exact World.count_aborted (.inr fun _ => rfl)
  | unpublished _ _ => exact still .fulfil
  | published _ hx => exact still (World.Still.fulfil.trans (.publish hx))
  | sent _ _ hx =>
    rw [World.aborted, (World.Still.publish hx).counters]
    rfl
  | delivers _ _ => exact still .setExchange
  | aborted hp hf _ =>
    refine World.count_aborted (.inl fun hl => hn _ _ hp ?_)
    rw [hf, List.length_cons, hl]
  | retried _ _ _ _ => exact World.count_aborted (.inr fun _ => rfl)
  | exhausted _ _ _ _ => exact World.count_aborted (.inr fun _ => rfl)

/-- A call that comes out of a stage around the retry stage is out of that stage, with the same outcome unless
    this was a break-off that the stage has caught. -/
theorem Moves.around {o : Outcome} {rest : List Stage} (h : c.Moves task w w' c') (hp : c.phase = .leaving o)
    (ha : Broker.Ahead c.frames rest) : c' = c ∨ ∃ outer rest', Broker.Ahead outer rest' ∧
      ((∃ reason text, o = .panicked reason ∧ c' = c.pop outer (.failed (panicError text))) ∨
        c' = c.pop outer o ∧ ∀ reason, o = .panicked reason → outer ≠ []) := by
  have out : ∀ {f outer}, c.frames = f :: outer →
      (f = .plain ∧ outer ≠ [] ∨ ∃ id topic, f = .guard id topic) ∧ ∃ rest', Broker.Ahead outer rest' :=
    fun hf => Broker.Ahead.around (hf ▸ ha)
  cases h with
  | stays => exact .inl rfl
  | recovered hp' hf =>
    rw [hp] at hp'
    cases hp'
    obtain ⟨-, rest', ha'⟩ := out hf
    exact .inr ⟨_, rest', ha', .inl ⟨_, _, rfl, rfl⟩⟩
  | unwound hp' hf hn =>
    rw [hp] at hp'
    cases hp'
    obtain ⟨⟨-, ho⟩ | ⟨id, topic, he⟩, rest', ha'⟩ := out hf
    · exact .inr ⟨_, rest', ha', .inr ⟨rfl, fun _ _ => ho⟩⟩
    · exact absurd he (hn id topic)
  | left hp' hf hn _ _ =>
    rw [hp] at hp'
    cases hp'
    obtain ⟨-, rest', ha'⟩ := out hf
    exact .inr ⟨_, rest', ha', .inr ⟨rfl, fun reason he => absurd he (hn reason)⟩⟩
  | filtered _ _ hf | unretryable _ hf _ | backsOff _ hf _ _ | exhausted _ hf _ _ | propagated _ hf _
  | swallowed _ hf _ =>
    obtain ⟨⟨he, -⟩ | ⟨_, _, he⟩, -⟩ := out hf <;> cases he
  | unhandled hp' _ | undecoded hp' _ _ _ | refused hp' _ _ _ | called hp' _ _ _ | guarded hp' | marked hp' _
  | unmarked hp' _ | restored hp' | tried hp' | passed hp' _ | answered hp' _ | dispatched hp' | returned hp' _ _
  | brokeOff hp' _ | slept hp' | cancelled hp' | awaited hp' | unpublished hp' _ | published hp' _ | unwritten hp' _
  | unsent hp' _ _ | sent hp' _ _ | woke hp' _ | freed hp' _ | delivered hp' _ | undelivered hp' _ | delivers hp' _
  | aborted hp' _ _ | retried hp' _ _ _ | strayed hp' _ =>
    rw [hp] at hp'
    cases hp'

theorem Aborted.moves (hc : c.Aborted e) (h : c.Moves task w w' c') : c'.Aborted e := by
  obtain ⟨rest, ha⟩ := hc.ahead
  rcases h.around hc.leaving ha with rfl | ⟨outer, rest', ha', ⟨_, _, he, -⟩ | ⟨rfl, -⟩⟩
  · exact hc
  · cases he
  · exact ⟨rfl, rest', ha'⟩

theorem Moves.held_leaving {o : Outcome} {rest : List Stage} (h : c.Moves task w w' c') (hp : c.phase = .leaving o)
    (ha : Broker.Ahead c.frames rest) (hm : o.IsMild c.frames) : c'.Held tok := by
  rcases h.around hp ha with rfl | ⟨outer, rest', ha', ⟨_, _, -, rfl⟩ | ⟨rfl, hout⟩⟩
  · exact .leaving hp ha hm
  · exact .leaving rfl ha' rfl
  · refine .leaving rfl ha' ?_
    cases o with
    | ok | failed _ => exact hm
    | panicked reason => exact hout reason rfl

theorem Moves.held_entering {rest : List Stage} {ctx : Context} {m : Message} (h : c.Moves task w w' c')
    (hp : c.phase = .entering rest ctx m) (ha : Broker.Ahead c.frames rest) (ht : ctx.token = tok) : c'.Held tok := by
  cases h with
  | stays => exact .entering hp ha ht
  | unhandled hp' _ | undecoded hp' _ _ _ | refused hp' _ _ _ | called hp' _ _ _ | passed hp' _ | answered hp' _
  | dispatched hp' =>
    rw [hp] at hp'
    cases hp'
    generalize c.frames = fs at ha
    cases ha
  | guarded hp' =>
    rw [hp] at hp'
    cases hp'
    exact .entering rfl ha.guard ht
  | marked hp' _ | unmarked hp' _ =>
    rw [hp] at hp'
    cases hp'
    exact .entering rfl ha.correlation ht
  | restored hp' =>
    rw [hp] at hp'
    cases hp'
    exact .entering rfl ha.propagation ht
  | tried hp' =>
    rw [hp] at hp'
    cases hp'
    exact .inside (.retry ht ha) nofun
  | returned hp' _ _ | brokeOff hp' _ | slept hp' | cancelled hp' | awaited hp' | unpublished hp' _ | published hp' _
  | unwritten hp' _ | unsent hp' _ _ | sent hp' _ _ | woke hp' _ | freed hp' _ | delivered hp' _ | undelivered hp' _
  | delivers hp' _ | aborted hp' _ _ | retried hp' _ _ _ | strayed hp' _ | recovered hp' _ | unwound hp' _ _
  | filtered hp' _ _ | unretryable hp' _ _ | backsOff hp' _ _ _ | exhausted hp' _ _ _ | propagated hp' _ _
  | swallowed hp' _ _ | left hp' _ _ _ _ =>
    rw [hp] at hp'
    cases hp'

theorem Moves.held_inside (h : c.Moves task w w' c') (hw : Broker.Within tok c.frames)
    (hb : ∀ t e, c.phase ≠ .backoff t e) : c'.Held tok := by
  -- What comes out of the retry stage leaves nothing to report, what comes out of one inside may be anything.
  have out : ∀ {f outer} {o : Outcome}, c.frames = f :: outer →
      (∀ fs, fs.length = Broker.retryPlace → o.IsMild fs) → (c.pop outer o).Held tok := fun hf hm => by
    rw [hf] at hw
    cases hw with
    | retry _ ha => exact .leaving rfl ha (hm _ ha.retryPlace)
    | deeper hw => exact .inside hw nofun
  have inner : ∀ {f outer} {o : Outcome}, c.frames = f :: outer → (∀ q n ctx m rest, f ≠ .retry q n ctx m rest) →
      (c.pop outer o).Held tok := fun hf hn => by
    rw [hf] at hw
    cases hw with
    | retry _ _ => exact absurd rfl (hn _ _ _ _ _)
    | deeper hw => exact .inside hw nofun
  cases h with
  | stays | delivers _ _ => exact .inside hw fun t e he => absurd he (hb t e)
  | unhandled _ _ | undecoded _ _ _ _ | refused _ _ _ _ | called _ _ _ _ | answered _ _ | returned _ _ _ | brokeOff _ _
  | slept _ | cancelled _ | awaited _ | unpublished _ _ | published _ _ | unwritten _ _ | unsent _ _ _ | sent _ _ _
  | woke _ _ | freed _ _ | delivered _ _ | undelivered _ _ => exact .inside hw nofun
  | guarded _ | marked _ _ | unmarked _ _ | restored _ | tried _ | passed _ _ | dispatched _ =>
    exact .inside (.deeper hw) nofun
  | backsOff _ _ hr _ =>
    refine .inside hw fun t e he => ?_
    cases he
    exact hr
  | aborted hp _ _ | retried hp _ _ _ | strayed hp _ => exact absurd hp (hb _ _)
  | recovered _ hf | filtered _ _ hf | propagated _ hf _ | swallowed _ hf _ => exact inner hf (by simp)
  | unwound _ hf _ =>
    refine out hf fun fs hl => ?_
    rintro rfl
    cases hl
  | unretryable _ hf hr => exact out hf fun _ _ => hr
  | exhausted _ hf _ _ => exact out hf fun _ _ => trivial
  | @left f outer o hp hf hn _ he =>
    cases o with
    | ok => exact out hf fun _ _ => trivial
    | failed e => exact inner hf (by rcases he ⟨e, rfl⟩ with rfl | ⟨_, _, rfl⟩ <;> simp)
    | panicked reason => exact absurd rfl (hn reason)

/-- A wait for the next attempt goes on, or leads to one, or is that of a stage further inside, or it is cut
    short in the retry stage of the broker. -/
theorem Moves.held_backoff {t : Timer} (h : c.Moves task w w' c') (hw : Broker.Within tok c.frames)
    (hp : c.phase = .backoff t e) (he : e.retryable = true) :
    (c'.Held tok ∧ c.aborts? c' = none ∧ w'.aborted = w.aborted) ∨
      c.aborts? c' = some e ∧ c'.Aborted e ∧ w'.tokens.isCancelled tok = true ∧
        w'.aborted = w.aborted.map (· + 1) := by
  cases h with
  | stays =>
    refine .inl ⟨.inside hw fun _ _ h => ?_, by rw [aborts?, hp], rfl⟩
    rw [hp] at h
    cases h
    exact he
  | retried hp' hf _ _ =>
    refine .inl ⟨?_, by rw [aborts?, hp], World.count_aborted (.inr fun _ => rfl)⟩
    rw [hf] at hw
    cases hw with
    | retry ht ha => exact .inside (.retry ht ha) fun _ _ h => by cases h
    | deeper hw => exact .inside (.deeper hw) fun _ _ h => by cases h
  | @aborted t' e' policy attempt ctx m rest outer hp' hf hcancel =>
    rw [hp] at hp'
    cases hp'
    have habort : c.aborts? (c.pop outer (.failed e)) =
        if outer.length = Broker.retryPlace then some e else none := by
      rw [aborts?, hp, hf]
      simp [pop]
    rw [hf] at hw
    cases hw with
    | retry ht ha =>
      refine .inr ⟨habort.trans (if_pos ha.retryPlace), ⟨rfl, _, ha⟩, ht ▸ hcancel, ?_⟩
      show ((w.counters.modify outer.length _)[Broker.retryPlace]?).map _ = _
      rw [ha.retryPlace, List.getElem?_modify_eq, World.aborted]
      cases w.counters[Broker.retryPlace]? <;> rfl
    | deeper hw =>
      have hne : outer.length ≠ Broker.retryPlace := Nat.ne_of_gt hw.retryPlace_lt
      exact .inl ⟨.inside hw (fun _ _ h => by cases h), habort.trans (if_neg hne), World.count_aborted (.inl hne)⟩
  | strayed hp' hn =>
    refine .inl ⟨.inside hw (fun _ _ h => by cases h), ?_, rfl⟩
    generalize hf : c.frames = fs at hw
    cases hw with
    | retry _ _ => exact absurd hf (hn _ _ _ _ _ _)
    | deeper hw =>
      rw [aborts?, hp, hf]
      exact if_neg (Nat.ne_of_gt (Nat.succ_lt_succ hw.retryPlace_lt))
  | unhandled hp' _ | undecoded hp' _ _ _ | refused hp' _ _ _ | called hp' _ _ _ | guarded hp' | marked hp' _
  | unmarked hp' _ | restored hp' | tried hp' | passed hp' _ | answered hp' _ | dispatched hp' | returned hp' _ _
  | brokeOff hp' _ | slept hp' | cancelled hp' | awaited hp' | unpublished hp' _ | published hp' _ | unwritten hp' _
  | unsent hp' _ _ | sent hp' _ _ | woke hp' _ | freed hp' _ | delivered hp' _ | undelivered hp' _ | delivers hp' _
  | recovered hp' _ | unwound hp' _ _ | filtered hp' _ _ | unretryable hp' _ _ | backsOff hp' _ _ _
  | exhausted hp' _ _ _ | propagated hp' _ _ | swallowed hp' _ _ | left hp' _ _ _ _ =>
    rw [hp] at hp'
    cases hp'

/-- A call of a broker stays harmless and nothing is counted, or its wait is cut short and that is counted. -/
theorem Moves.held (h : c.Moves task w w' c') (hc : c.Held tok) :
    (c'.Held tok ∧ c.aborts? c' = none ∧ w'.aborted = w.aborted) ∨
      ∃ e, c.aborts? c' = some e ∧ e.retryable = true ∧ c'.Aborted e ∧ w'.tokens.isCancelled tok = true ∧
        w'.aborted = w.aborted.map (· + 1) := by
  have quiet : (∀ t e, c.phase ≠ .backoff t e) → c'.Held tok →
      c'.Held tok ∧ c.aborts? c' = none ∧ w'.aborted = w.aborted := fun hn hc' =>
    ⟨hc', aborts?_eq_none hn, h.aborted_eq fun t e he => absurd he (hn t e)⟩
  cases hc with
  | entering hp ha ht => exact .inl (quiet (by simp [hp]) (h.held_entering hp ha ht))
  | leaving hp ha hm => exact .inl (quiet (by simp [hp]) (h.held_leaving hp ha hm))
  | inside hw hb =>
    by_cases hp : ∃ t e, c.phase = .backoff t e
    · obtain ⟨t, e, hp⟩ := hp
      exact (h.held_backoff hw hp (hb t e hp)).imp id fun ⟨habort, hrest⟩ => ⟨e, habort, hb t e hp, hrest⟩
    · have hn : ∀ t e, c.phase ≠ .backoff t e := fun t e he => hp ⟨t, e, he⟩
      exact .inl (quiet hn (h.held_inside hw hn))

end Call
/-! ### Workers -/

/-- A message that was not tried again because its wait was cut short: the worker that dealt with it, and the
    error of its last attempt. -/
structure Abort where
  task : Nat
  handler : String
  message : Message
  error : Error

/-- The entry for a worker that has ended with this message. -/
def Abort.text (a : Abort) : String := a.handler ++ ": " ++ a.error.message

/-- The message that a worker does not try again, with the error of its last attempt. -/
def Worker.aborts? (w w' : Worker) : Option (Message × Error) :=
  match w.occupation, w'.occupation with
  | .busy m c, .busy _ c' => (c.aborts? c').map fun e => (m, e)
  | _, _ => none

/-- A worker none of whose messages has waited in vain, and that has nothing to report. -/
structure Worker.Calm (w : Worker) : Prop where
  unfailed : w.lastError = none
  ended : ∀ f, w.occupation = .ended f → f = none
  held : ∀ m c, w.occupation = .busy m c → c.Held w.context.token

/-- A worker whose last message is this one. -/
structure Abort.Of (a : Abort) (x : World) (w : Worker) : Prop where
  handler : a.handler = w.name
  retryable : a.error.retryable = true
  cancelled : x.isCancelled w.context = true
  busy : ∀ m c, w.occupation = .busy m c → m = a.message ∧ c.Aborted a.error
  done : (∀ m c, w.occupation ≠ .busy m c) → x.ending? a.task = some (.failed a.error)

theorem Call.Held.start {route : Nat} {h : Handler} {ctx : Context} {m : Message} {p : RetryPolicy} {more : List Stage} :
    (Call.start route (Broker.defaultStages p ++ more) h ctx m).Held ctx.token := .entering rfl .outside rfl

theorem Call.Held.ended {c : Call} {tok : Token} {o : Outcome} (hc : c.Held tok) (ho : c.outcome? = some o) :
    o.IsMild [] := by
  unfold outcome? at ho
  split at ho
  · rename_i o' hp hf
    cases ho
    cases hc with
    | entering hp' _ _ =>
      rw [hp] at hp'
      cases hp'
    | inside hw _ =>
      rw [hf] at hw
      cases hw
    | leaving hp' _ hm =>
      rw [hp] at hp'
      cases hp'
      exact hf ▸ hm
  · cases ho

namespace Worker
variable {t : Nat} {x x' : World} {w w' : Worker} {a : Abort}

/-- A worker stays calm and nothing is counted, or the wait of its message is cut short and that is counted. -/
theorem Moves.calm (h : w.Moves t x x' w') (hc : w.Calm) (hs : ∃ p more, w.stages = Broker.defaultStages p ++ more) :
    (w'.Calm ∧ w.aborts? w' = none ∧ x'.aborted = x.aborted) ∨
      ∃ m e, w.aborts? w' = some (m, e) ∧ (⟨t, w.name, m, e⟩ : Abort).Of x' w' ∧
        x'.aborted = x.aborted.map (· + 1) := by
  have quiet : w'.Calm → (∀ m c, w.occupation ≠ .busy m c) ∨ (∀ m c, w'.occupation ≠ .busy m c) →
      w'.Calm ∧ w.aborts? w' = none := fun hc' hn => by
    refine ⟨hc', ?_⟩
    unfold aborts?
    split
    · rename_i ho ho'
      exact absurd ho' (hn.resolve_left (fun h => h _ _ ho) _ _)
    · rfl
  cases h with
  | stays =>
    refine .inl ⟨hc, ?_, rfl⟩
    cases ho : w.occupation with
    | busy m c =>
      have hcall : c.aborts? c = none := by cases hp : c.phase <;> simp [Call.aborts?, hp]
      simp [aborts?, ho, hcall]
    | idle | ended _ => simp [aborts?, ho]
  | @takes sub m rest ho _ _ _ =>
    obtain ⟨p, more, he⟩ := hs
    have hcalm : Calm { w with occupation := .busy m (.start w.route w.stages w.handler w.context m) } := by
      refine ⟨hc.unfailed, by simp, fun m c hbusy => ?_⟩
      cases hbusy
      rw [he]
      exact .start
    obtain ⟨hc', hn⟩ := quiet hcalm (.inl (by simp [ho]))
    exact .inl ⟨hc', hn, rfl⟩
  | stops ho _ =>
    have hcalm : Calm { w with occupation := .ended w.lastError } := by
      refine ⟨hc.unfailed, fun f hf => ?_, by simp⟩
      cases hf
      exact hc.unfailed
    obtain ⟨hc', hn⟩ := quiet hcalm (.inr (by simp))
    exact .inl ⟨hc', hn, rfl⟩
  | @works m c c' _ ho _ hm =>
    have habort : w.aborts? { w with occupation := .busy m c' } = (c.aborts? c').map fun e => (m, e) := by
      rw [aborts?, ho]
    rcases hm.held (hc.held m c ho) with ⟨hc', hn, hcount⟩ | ⟨e, he, hr, ha, hcancel, hcount⟩
    · refine .inl ⟨⟨hc.unfailed, by simp, fun m' c'' hbusy => ?_⟩, by rw [habort, hn]; rfl, hcount⟩
      cases hbusy
      exact hc'
    · refine .inr ⟨m, e, by rw [habort, he]; rfl, ?_, hcount⟩
      refine { handler := rfl, retryable := hr, cancelled := hcancel, busy := ?_, done := ?_ }
      · intro m' c'' hbusy
        cases hbusy
        exact ⟨rfl, ha⟩
      · intro hn
        exact absurd rfl (hn m c')
  | @succeeds m c ho _ =>
    have hcalm : Calm { w with lastError := none, occupation := .idle } := ⟨rfl, by simp, by simp⟩
    obtain ⟨hc', hn⟩ := quiet hcalm (.inr (by simp))
    exact .inl ⟨hc', hn, rfl⟩
  | @fails m c e lastError ho hout he =>
    have hmild : e.retryable = false := (hc.held m c ho).ended hout
    have hcalm : Calm { w with lastError, occupation := .idle } := ⟨by rw [he, hmild]; rfl, by simp, by simp⟩
    obtain ⟨hc', hn⟩ := quiet hcalm (.inr (by simp))
    exact .inl ⟨hc', hn, rfl⟩
  | @breaksOff m c reason ho hout => exact absurd rfl ((hc.held m c ho).ended hout)

/-- Nothing more comes of a worker whose message has waited in vain: its subscription has ended with the run. -/
theorem Moves.aborted (h : w.Moves a.task x x' w') (ha : a.Of x w)
    (hs : ∀ sub, x.exchange.subscriptions[w.subscription]? = some sub → sub.token = w.context.token)
    (hx : x'.isCancelled w.context = true) :
    a.Of x' w' ∧ w.aborts? w' = none ∧ x'.aborted = x.aborted := by
  have done : (∀ m c, w.occupation ≠ .busy m c) → w.aborts? w' = none := fun hn => by
    unfold aborts?
    split
    · rename_i ho _
      exact absurd ho (hn _ _)
    · rfl
  have out : ∀ {m c o}, w.occupation = .busy m c → c.outcome? = some o → o = .failed a.error := fun ho hout => by
    have hp := (ha.busy _ _ ho).2.leaving
    unfold Call.outcome? at hout
    split at hout
    · rename_i hp' _
      cases hout
      rw [hp] at hp'
      cases hp'
      rfl
    · cases hout
  cases h with
  | stays =>
    refine ⟨ha, ?_, rfl⟩
    cases ho : w.occupation with
    | busy m c => simp [aborts?, ho, Call.aborts?, (ha.busy m c ho).2.leaving]
    | idle | ended _ => simp [aborts?, ho]
  | takes _ hsub he _ =>
    rw [Exchange.hasEnded, Bool.or_eq_false_iff, hs _ hsub] at he
    exact absurd ha.cancelled (Bool.eq_false_iff.mp he.2)
  | stops ho _ =>
    refine ⟨⟨ha.handler, ha.retryable, hx, by simp, fun _ => ?_⟩, done (by simp [ho]), rfl⟩
    exact ha.done (by simp [ho])
  | @works m c c' _ ho _ hm =>
    obtain ⟨hmessage, hc⟩ := ha.busy m c ho
    have hn : ∀ t e, c.phase ≠ .backoff t e := by simp [hc.leaving]
    refine ⟨⟨ha.handler, ha.retryable, hx, fun m' c'' hbusy => ?_, fun hn => absurd rfl (hn m c')⟩, ?_,
      hm.aborted_eq fun t e he => absurd he (hn t e)⟩
    · cases hbusy
      exact ⟨hmessage, hc.moves hm⟩
    · simp [aborts?, ho, Call.aborts?_eq_none hn]
  | @fails m c e lastError ho hout _ =>
    obtain rfl : e = a.error := by
      cases out ho hout
      rfl
    refine ⟨⟨ha.handler, ha.retryable, hx, by simp, fun _ => ?_⟩, by simp [aborts?, ho], rfl⟩
    have hh : ((x.note a.task (.settled w.route m (.failed a.error))).note a.task
        (.noticed (.messageFailed w.name w.topic m.id a.error))).history a.task =
        x.history a.task ++ [.settled w.route m (.failed a.error),
          .noticed (.messageFailed w.name w.topic m.id a.error)] := by
      simp [World.history_note_self]
    rw [World.ending?_eq hh]
    rfl
  | succeeds ho hout | breaksOff ho hout => cases out ho hout

end Worker
/-! ### A broker and what its workers have not tried again -/

namespace State
variable {s s' : State} {o : Op} {t u : Nat} {as : List Abort} {a : Abort} {w w' : Worker} {out : Outcome}

/-- The message that is not tried again when a step leads from one state to another. -/
def abort? (s s' : State) : Op → Option Abort
  | .turn t _ =>
    match s.tasks[t]?, s'.tasks[t]? with
    | some (.worker w), some (.worker w') => (w.aborts? w').map fun (m, e) => ⟨t, w.name, m, e⟩
    | _, _ => none
  | _ => none

/-- The messages that are not tried again in the course of some steps. -/
def aborts (s : State) : List Op → List Abort
  | [] => []
  | o :: os => (s.abort? (s.apply o) o).toList ++ (s.apply o).aborts os

/-- These are the messages that were not tried again. -/
structure Aborting (s : State) (as : List Abort) : Prop where
  programs : s.Programs
  stages : ∃ p more, s.router.stages = Broker.defaultStages p ++ more
  counted : s.world.aborted = some as.length
  distinct : (as.map (·.task)).Nodup
  calm : ∀ {t : Nat} {w : Worker}, s.tasks[t]? = some (.worker w) → t ∉ as.map (·.task) → w.Calm
  ended : ∀ a ∈ as, ∃ w, s.tasks[a.task]? = some (.worker w) ∧ a.Of s.world w

theorem abort?_of_worker {b : Branch} (hw : s.tasks[t]? = some (.worker w)) (hw' : s'.tasks[t]? = some (.worker w')) :
    s.abort? s' (.turn t b) = (w.aborts? w').map fun (m, e) => ⟨t, w.name, m, e⟩ := by
  simp only [abort?, hw, hw']

theorem abort?_eq_none (hn : ∀ t b w, o = .turn t b → s.tasks[t]? ≠ some (.worker w)) : s.abort? s' o = none := by
  cases o with
  | turn t b =>
    unfold abort?
    dsimp only
    split
    · rename_i hw _
      exact absurd hw (hn t b _ rfl)
    · rfl
  | _ => rfl

/-- Only a worker counts waits that are cut short. -/
theorem Step.aborted_eq (h : s.Step o s') (hp : s.Programs)
    (hn : ∀ t b w, o = .turn t b → s.tasks[t]? ≠ some (.worker w)) {n : Nat} (hs : s.world.aborted = some n) :
    s'.world.aborted = some n := by
  have same : ∀ {x : World}, x.counters = s.world.counters → x.aborted = some n := fun hx => by
    rw [World.aborted, hx]
    exact hs
  cases h with
  | outside _ _ h =>
    cases h with
    | registers _ _ =>
      obtain ⟨k, hk, he⟩ := Option.map_eq_some_iff.mp hs
      show ((s.world.counters ++ _)[Broker.retryPlace]?).map (·.aborted) = some n
      rw [List.getElem?_append_left (List.getElem?_eq_some_iff.mp hk).1, hk, ← he]
      rfl
    | refuses | abandons _ _ => exact hs
    | stirs hx | begins hx _ => exact same hx.counters
  | turn ho _ ht hm =>
    have hk : ∀ w, _ ≠ Task.worker w := fun w he => hn _ _ w ho (he ▸ ht)
    exact same (rests_of_moves hm hk fun c hc => hp.program ht hk hc).counters
  | nobody _ _ _ => exact hs

namespace Aborting

theorem pipeline (ha : s.Aborting as) (hc : s.Course) (hw : s.tasks[t]? = some (.worker w)) :
    ∃ p more, w.stages = Broker.defaultStages p ++ more := by
  obtain ⟨t₀, base, run, hs⟩ := hc.serving_of_worker hw
  obtain ⟨-, -, route, hr⟩ := hs.serves hw
  obtain ⟨p, more, he⟩ := ha.stages
  exact ⟨p, more ++ route.stages, by rw [hr.stages, Router.pipeline, he, List.append_assoc]⟩

/-- What a step of a worker does to what it has not tried again. -/
theorem moves (ha : s.Aborting as) (hc : s.Course) (h : s.Step o s') (hw : s.tasks[t]? = some (.worker w))
    (hm : w.Moves t s.world s'.world w') :
    (w.aborts? w' = none ∧ s'.world.aborted = some as.length ∧ (t ∉ as.map (·.task) → w'.Calm) ∧
        ∀ a ∈ as, a.task = t → a.Of s'.world w') ∨
      ∃ m e, w.aborts? w' = some (m, e) ∧ s'.world.aborted = some (as.length + 1) ∧ t ∉ as.map (·.task) ∧
        (⟨t, w.name, m, e⟩ : Abort).Of s'.world w' := by
  by_cases hmem : t ∈ as.map (·.task)
  · obtain ⟨t₀, base, run, hs⟩ := hc.serving_of_worker hw
    obtain ⟨sub, hsub, -, htoken⟩ := hs.reads hw
    have htoken' : ∀ sub', s.world.exchange.subscriptions[w.subscription]? = some sub' →
        sub'.token = w.context.token := fun sub' hsub' => by
      rw [hsub] at hsub'
      cases hsub'
      exact htoken
    have hkept : ∀ a ∈ as, a.task = t → a.Of s'.world w' ∧ w.aborts? w' = none ∧
        s'.world.aborted = s.world.aborted := by
      rintro a ha' rfl
      obtain ⟨w₀, hw₀, hof⟩ := ha.ended a ha'
      rw [hw] at hw₀
      cases hw₀
      exact hm.aborted hof htoken' (h.cancelled hof.cancelled)
    obtain ⟨a, ha', he⟩ := List.mem_map.mp hmem
    obtain ⟨-, hno, hcount⟩ := hkept a ha' he
    exact .inl ⟨hno, hcount.trans ha.counted, fun hn => absurd hmem hn, fun a ha' he => (hkept a ha' he).1⟩
  · rcases hm.calm (ha.calm hw hmem) (ha.pipeline hc hw) with ⟨hcalm, hno, hcount⟩ | ⟨m, e, he, hof, hcount⟩
    · refine .inl ⟨hno, hcount.trans ha.counted, fun _ => hcalm, fun a ha' he => ?_⟩
      exact absurd (List.mem_map.mpr ⟨a, ha', he⟩) hmem
    · exact .inr ⟨m, e, he, by rw [hcount, ha.counted]; rfl, hmem, hof⟩

/-- A worker that has not moved is as calm as before. -/
theorem others (ha : s.Aborting as) (h : s.Step o s') (hw' : s'.tasks[u]? = some (.worker w'))
    (hn : ∀ b, o ≠ .turn u b) (hu : u ∉ as.map (·.task)) : w'.Calm := by
  rcases h.worker_from hw' with ⟨b, _, ho, -⟩ | ⟨-, hw | ⟨_, _, _, _, _, _, -, hm, hmem, -, hidle⟩⟩
  · exact absurd ho (hn b)
  · exact ha.calm hw hu
  · have hfailure := hm.new_failure hmem
    rw [Worker.failure?, hidle] at hfailure
    exact ⟨hfailure, by simp [hidle], by simp [hidle]⟩

theorem kept (ha : s.Aborting as) (h : s.Step o s') (hmem : a ∈ as) (hn : ∀ b, o ≠ .turn a.task b) :
    ∃ w, s'.tasks[a.task]? = some (.worker w) ∧ a.Of s'.world w := by
  obtain ⟨w, hw, hof⟩ := ha.ended a hmem
  rcases h.worker hw with ⟨b, _, ho, -⟩ | ⟨-, hw'⟩
  · exact absurd ho (hn b)
  · have hh := h.history (List.getElem?_eq_some_iff.mp hw).1 hn
    refine ⟨w, hw', { hof with cancelled := h.cancelled hof.cancelled, done := fun hn => ?_ }⟩
    rw [World.ending?, hh]
    exact hof.done hn

theorem step (ha : s.Aborting as) (hc : s.Course) (hk : o.OfRouter) (h : s.Step o s') :
    s'.Aborting (as ++ (s.abort? s' o).toList) := by
  have hprograms := ha.programs.step hk h
  have hstages : ∃ p more, s'.router.stages = Broker.defaultStages p ++ more := by
    obtain ⟨p, more, he⟩ := ha.stages
    rcases h.router with ⟨hs, -⟩ | hg
    · exact ⟨p, more, hs.trans he⟩
    · exact ⟨p, more ++ o.adds.1, by rw [hg.stages, he, List.append_assoc]⟩
  by_cases hturn : ∃ t b w, o = .turn t b ∧ s.tasks[t]? = some (.worker w)
  · obtain ⟨t, b, w, rfl, hw⟩ := hturn
    obtain ⟨w', hw', hm⟩ : ∃ w', s'.tasks[t]? = some (.worker w') ∧ w.Moves t s.world s'.world w' := by
      rcases h.worker hw with ⟨_, w', -, hw', hm, -⟩ | ⟨hn, -⟩
      · exact ⟨w', hw', hm⟩
      · exact absurd rfl (hn b)
    have other : ∀ {u}, u ≠ t → ∀ b', Op.turn t b ≠ .turn u b' := fun hu b' he => hu (by cases he; rfl)
    rw [abort?_of_worker hw hw']
    rcases ha.moves hc h hw hm with ⟨hno, hcount, hcalm, hof⟩ | ⟨m, e, he, hcount, hnew, hof⟩
    · rw [hno]
      simp only [Option.map_none, Option.toList_none, List.append_nil]
      refine ⟨hprograms, hstages, hcount, ha.distinct, fun {u w''} hw'' hu => ?_, fun a hmem => ?_⟩
      · by_cases he : u = t
        · subst he
          rw [hw'] at hw''
          cases hw''
          exact hcalm hu
        · exact ha.others h hw'' (other he) hu
      · by_cases he : a.task = t
        · exact ⟨w', he ▸ hw', hof a hmem he⟩
        · exact ha.kept h hmem (other he)
    · rw [he]
      simp only [Option.map_some, Option.toList_some]
      refine ⟨hprograms, hstages, by simp [hcount], ?_, fun {u w''} hw'' hu => ?_, fun a hmem => ?_⟩
      · rw [List.map_append, List.nodup_append]
        refine ⟨ha.distinct, by simp, fun u hu u' hu' => ?_⟩
        rintro rfl
        simp at hu'
        exact hnew (hu' ▸ hu)
      · rw [List.map_append, List.mem_append, not_or] at hu
        refine ha.others h hw'' (other ?_) hu.1
        simpa using hu.2
      · rcases List.mem_append.mp hmem with hmem | hmem
        · refine ha.kept h hmem (other fun he => hnew ?_)
          exact List.mem_map.mpr ⟨a, hmem, he⟩
        · obtain rfl := List.mem_singleton.mp hmem
          exact ⟨w', hw', hof⟩
  · have hn : ∀ t b w, o = .turn t b → s.tasks[t]? ≠ some (.worker w) :=
      fun t b w ho hw => hturn ⟨t, b, w, ho, hw⟩
    rw [abort?_eq_none hn]
    simp only [Option.toList_none, List.append_nil]
    refine ⟨hprograms, hstages, h.aborted_eq ha.programs hn ha.counted, ha.distinct, fun {u w'} hw' hu => ?_,
      fun a hmem => ?_⟩
    · rcases h.worker_from hw' with ⟨b, w, ho, hw, -⟩ | ⟨ho, -⟩
      · exact absurd hw (hn u b w ho)
      · exact ha.others h hw' ho hu
    · obtain ⟨w, hw, -⟩ := ha.ended a hmem
      exact ha.kept h hmem fun b ho => hn _ b w ho hw

theorem start {p : RetryPolicy} {extra : List Stage} {x : World} (hc : x.counters = []) :
    (Broker.start (Broker.defaultStages p ++ extra) x).Aborting [] := by
  have ht : (Broker.start (Broker.defaultStages p ++ extra) x).tasks = [] := rfl
  refine ⟨⟨by simp [ht], by simp [ht]⟩, ⟨p, extra, rfl⟩, ?_, .nil, by simp [ht], fun _ hmem => nomatch hmem⟩
  show ((x.counters ++ List.replicate _ _)[Broker.retryPlace]?).map (·.aborted) = some 0
  rw [hc]
  rfl

theorem replay {os : List Op} (ha : s.Aborting as) (hs : s.Reporting) (hk : ∀ o ∈ os, o.OfRouter)
    (hr : s.replay os = some s') : s'.Aborting (as ++ s.aborts os) ∧ s'.Reporting := by
  induction os generalizing s as with
  | nil =>
    cases hr
    exact ⟨by rwa [aborts, List.append_nil], hs⟩
  | cons o os ih =>
    rw [State.replay] at hr
    split at hr
    · rename_i hallow
      have h := apply_step hallow
      rw [aborts, ← List.append_assoc]
      exact ih (ha.step hs.course (hk o List.mem_cons_self) h) (hs.step h)
        (fun o' ho' => hk o' (List.mem_cons_of_mem _ ho')) hr
    · cases hr

/-- A worker that has ended with a message that was not tried again has failed with it. -/
theorem fate (ha : s.Aborting as) (hmem : a ∈ as)
    (he : ∀ {t : Nat} {w : Worker}, s.tasks[t]? = some (.worker w) → ∃ f, w.occupation = .ended f) :
    s.fate? a.task = some (a.handler, some (.failed a.error)) := by
  obtain ⟨w, hw, hof⟩ := ha.ended a hmem
  obtain ⟨f, ho⟩ := he hw
  simp [fate?, hw, hof.handler, hof.done (by simp [ho])]

theorem entries (ha : s.Aborting as) (hr : s.Remembers)
    (he : ∀ {t : Nat} {w : Worker}, s.tasks[t]? = some (.worker w) → ∃ f, w.occupation = .ended f) :
    s.entries.Perm (as.map Abort.text) := by
  rw [entries_eq, ← List.filterMap_eq_map]
  refine filterMap_range_perm ha.distinct (fun a hmem => ?_) fun t f hf => ?_
  · obtain ⟨w, hw, hof⟩ := ha.ended a hmem
    refine ⟨(List.getElem?_eq_some_iff.mp hw).1, ?_⟩
    simp [ha.fate hmem he, Outcome.failure?, hof.retryable, Abort.text]
  · obtain ⟨w, hw⟩ := worker_of_entry hf
    refine Decidable.byContradiction fun hn => ?_
    obtain ⟨f', ho⟩ := he hw
    rw [hr.entry hw, Worker.failure?, ho, (ha.calm hw hn).ended f' ho] at hf
    cases hf

end Aborting

/-- Aborted retries and stop agree. Of a broker with any further stages inside its own, as soon as one
    caller that stops it has its answer, the failures told to all callers together are one for each message
    whose wait for another attempt was cut short, with the handler and the error of its last attempt, and
    they are as many as the retry stage has counted. These messages are the last of different workers. -/
theorem aborts_reported {p : RetryPolicy} {extra : List Stage} {x : World} {os : List Op}
    (hn : (Broker.start (Broker.defaultStages p ++ extra) x).IsNew) (hc : x.counters = [])
    (hk : ∀ o ∈ os, o.OfRouter) (hr : (Broker.start (Broker.defaultStages p ++ extra) x).replay os = some s)
    (ht : s.tasks[t]? = some (.close (.ended out))) (ho : s.Answered out) :
    let aborts := (Broker.start (Broker.defaultStages p ++ extra) x).aborts os
    (∃ k, s.world.counters[Broker.retryPlace]? = some k ∧ s.reports.flatten.length = k.aborted) ∧
      s.reports.flatten.Perm (aborts.map Abort.text) ∧ (aborts.map (·.task)).Nodup ∧
      ∀ a ∈ aborts, s.fate? a.task = some (a.handler, some (.failed a.error)) := by
  intro aborts
  obtain ⟨ha, hs⟩ := (Aborting.start hc).replay (hn.reporting rfl) hk hr
  obtain ⟨joined, failures, hg, -⟩ := hs.answers ht ho
  have hperm := (hs.reports ht ho).trans (ha.entries hs.remembers hg.all_ended)
  obtain ⟨k, hk, hcount⟩ := Option.map_eq_some_iff.mp ha.counted
  refine ⟨⟨k, hk, ?_⟩, hperm, ha.distinct, fun a hmem => ha.fate hmem hg.all_ended⟩
  rw [hperm.length_eq, List.length_map, hcount]

theorem aborts_append {s₁ : State} {os os' : List Op} (h : s.replay os = some s₁) :
    s.aborts (os ++ os') = s.aborts os ++ s₁.aborts os' := by
  induction os generalizing s with
  | nil =>
    cases h
    rfl
  | cons o os ih =>
    rw [replay] at h
    split at h
    · rw [List.cons_append, aborts, aborts, ih h, List.append_assoc]
    · cases h

/-- The broker whose start was called off is stopped. -/
def stopping : List Op := windingUp ++ [Op.close, .turn 3 .shutdown]

def stopped : State := (calledOff.replay stopping).getD calledOff

def callingOff : List Op := tryingOnce ++ .cancel 0 :: (stopping ++ [.turn 3 .shutdown])

theorem aborts_reported_of_one : ∃ s k, Broker.sample.replay callingOff = some s ∧
    s.world.counters[Broker.retryPlace]? = some k ∧ k.aborted = 1 ∧ s.reports.flatten = ["fail: busy"] := by
  have htried : Broker.sample.replay tryingOnce = some triedOnce := rfl
  have hstopped : calledOff.replay stopping = some stopped := rfl
  have hfailures : stopped.router.failures = ["fail: busy"] := rfl
  obtain ⟨fs, hperm, htasks, -, hbroker⟩ := turn_tells (s := stopped) (t := 3) (b := .shutdown) rfl rfl
    (by simp [hfailures])
  obtain rfl : fs = ["fail: busy"] := List.perm_singleton.mp (hfailures ▸ hperm)
  have hlast : stopped.tasks[3]? = some (.close .waiting) := rfl
  generalize hs : stopped.apply (.turn 3 .shutdown) = s
  replace htasks : s.tasks = stopped.tasks.set 3 (.close (.ended (stopped.verdict (.workers ["fail: busy"])))) :=
    hs ▸ htasks
  replace hbroker : s.broker = stopped.broker := hs ▸ hbroker
  have hr : Broker.sample.replay callingOff = some s := by
    rw [callingOff, replay_append htried, replay, if_pos (show triedOnce.Allows (.cancel 0) from rfl),
      triedOnce_called_off, replay_append hstopped, replay,
      if_pos (show stopped.Allows (.turn 3 .shutdown) from .inl rfl), hs, replay]
  have haborts : Broker.sample.aborts callingOff = [⟨1, "fail", ⟨"a", "flag", [1], ∅⟩,
      .custom ⟨"busy", .internal, "BUSY", true⟩ []⟩] := by
    have hnone : stopped.abort? s (.turn 3 .shutdown) = none := abort?_eq_none fun t b w ho hw => by
      cases ho
      rw [hlast] at hw
      cases hw
    rw [callingOff, aborts_append htried, aborts, triedOnce_called_off, aborts_append hstopped, aborts, hs,
      hnone]
    rfl
  have hanswer : s.Answered (stopped.verdict (.workers ["fail: busy"])) :=
    ⟨by simp [verdict], fun h => by cases verdict_inj (h.trans (verdict_congr hbroker _))⟩
  have ht : s.tasks[3]? = some (.close (.ended (stopped.verdict (.workers ["fail: busy"])))) := by
    rw [htasks]
    rfl
  have hr' : (Broker.start (Broker.defaultStages {} ++ []) (.start ⟨fun _ => .mask, 0⟩ (some 4))).replay callingOff =
      some s := hr
  obtain ⟨⟨k, hk, hcount⟩, hreports, -⟩ := aborts_reported ⟨rfl, rfl, rfl, rfl, rfl, rfl⟩ rfl (by decide) hr' ht hanswer
  replace hreports : s.reports.flatten.Perm ((Broker.sample.aborts callingOff).map Abort.text) := hreports
  rw [haborts] at hreports
  have hone : s.reports.flatten = ["fail: busy"] := List.perm_singleton.mp hreports
  exact ⟨s, k, hr, hk, by rw [← hcount, hone]; rfl, hone⟩

end State
end Relay
