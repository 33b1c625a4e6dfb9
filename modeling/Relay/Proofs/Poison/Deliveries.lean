import Relay.Proofs.Poison.Accord

/-! What comes to a worker in a run of its broker. The steps of others put messages into its queue, cancel its run or
    close the exchange, and time passes where it can do nothing; so at any time it has come to where its course leads,
    given the messages that its handler can read (`State.Brings.leads`). -/

namespace Relay

/-- Whether a call waits for a timer or for a cancellation. -/
def Call.waits (c : Call) : Bool :=
  match c.phase with
  | .asleep .. | .awaiting .. | .backoff .. => true
  | _ => false

namespace Call
variable {c : Call}

theorem unsent_of_waits (h : c.waits = true) : c.Unsent := fun port pub wrap n p ctx hp => by simp [waits, hp] at h

theorem outcome?_of_waits (h : c.waits = true) : c.outcome? = none := by
  unfold waits at h
  unfold outcome?
  split at h <;> simp_all

theorem not_refuses_of_waits {h : Handler} (hw : c.waits = true) : ¬c.Refuses h := fun hr => by
  unfold waits at hw
  unfold Refuses at hr
  split at hw <;> simp_all

/-- A call that is not at its end, is not ready and does not wait for a publication waits for one of the others. -/
theorem waits_of_not_ready {w : World} (ho : c.outcome? = none) (hr : c.isReady w = false) (hu : c.Unsent) :
    c.waits = true := by
  obtain ⟨route, handler, frames, phase⟩ := c
  cases phase with
  | asleep _ _ _ _ | awaiting _ _ _ | backoff _ _ => rfl
  | sending port pub wrap n p ctx => exact absurd rfl (hu port pub wrap n p ctx)
  | entering _ _ _ | acting _ _ _ => cases hr
  | leaving o =>
    replace hr : (Call.outcome? _).isNone = false := hr
    rw [ho] at hr
    cases hr

end Call

namespace View
variable {d : Desk} {ms : List Message}

/-- What is made of the course of a worker by these messages. -/
def receives (v : View) (ms : List Message) : View := ms.foldl (fun v m => v.receive (.message m)) v

theorem receives_serving : (serving d).receives ms = serving { d with inbox := d.inbox ++ ms } := by
  induction ms generalizing d with
  | nil => simp [receives]
  | cons m ms ih =>
    refine (ih (d := { d with inbox := d.inbox ++ [m] })).trans ?_
    rw [List.append_assoc]
    rfl

theorem receives_ended : ended.receives ms = ended := by
  induction ms with
  | nil => rfl
  | cons m ms ih => exact ih

end View

/-- A worker that can do nothing meanwhile is given messages one after another. -/
theorem Sitting.Leads.gives {drawn : Uuid → Prop} {p : Post} {v : View} {now : Nat} {closed : Bool}
    {calls : List Arrival} {rest : List (Nat × Incoming)} {pend : List Message}
    (h : ∀ ms, ms <+: pend → (v.receives ms).canMove p.place now closed = false) :
    Leads drawn p ⟨v, now, closed, calls, Incoming.at now pend ++ rest⟩
      ⟨v.receives pend, now, closed, calls, rest⟩ := by
  induction pend generalizing v with
  | nil => exact .refl
  | cons m pend ih =>
    have hnext := @Leads.one drawn p ⟨v, now, closed, calls, Incoming.at now (m :: pend) ++ rest⟩
    rw [next_of_incoming (h [] List.nil_prefix) rfl rfl] at hnext
    exact hnext.trans (ih fun ms hms => h (m :: ms) (List.cons_prefix_cons.mpr ⟨rfl, hms⟩))

namespace State

/-! ### What comes to a worker -/

/-- Whether the run that worker `u` is part of has been cancelled. -/
def isStopped (s : State) (u : Nat) : Bool :=
  match s.tasks[u]? with
  | some (.worker w) => s.world.isCancelled w.context
  | _ => false

/-- Whether the worker's run goes on, and there is nothing in its queue that its handler can read. -/
def lacks (s : State) (w : Worker) : Bool :=
  !(s.world.exchange.closed || s.world.isCancelled w.context) &&
    s.world.exchange.subscriptions[w.subscription]?.all fun sub => sub.queue.all fun m => !w.handler.canRead m.payload

/-- Whether worker `u` can do nothing for now but, it may be, refuse messages that its handler cannot read, and does
    not wait for a publication of its own. -/
def rests (s : State) (u : Nat) : Bool :=
  match s.tasks[u]? with
  | some (.worker w) =>
    match w.occupation with
    | .idle => s.lacks w
    | .busy m c => c.waits && !c.isReady s.world || !w.handler.canRead m.payload && s.lacks w
    | .ended _ => true
  | _ => true

def Op.isTick : Op → Bool
  | tick _ => true
  | _ => false

def Op.isTurnOf (u : Nat) : Op → Bool
  | turn t _ => t == u
  | _ => false

/-- Whether others cancel the run that worker `u` is part of. -/
def stops (s : State) (u : Nat) (o : Op) : Bool := !o.isTurnOf u && (!s.isStopped u && (s.apply o).isStopped u)

def closes (s : State) (o : Op) : Bool := !s.world.exchange.closed && (s.apply o).world.exchange.closed

/-- What a step brings to worker `u`, with the time. -/
def brings (s : State) (u : Nat) (o : Op) : List (Nat × Incoming) :=
  (if s.stops u o then [(s.world.clock, .stop)] else []) ++ ((if s.closes o then [(s.world.clock, .close)] else []) ++
    Incoming.at s.world.clock (((s.apply o).received u).drop (s.received u).length))

/-- A run of a broker and what it brings to worker `u`. The worker has done what it can where time passes, where its run
    is cancelled and where the exchange is closed. -/
inductive Brings (start : State) (u : Nat) : List (Nat × Incoming) → State → Prop where
  | start : Brings start u [] start
  | step {σ : List (Nat × Incoming)} {s : State} {o : Op} : Brings start u σ s → o.OfBroker → s.Allows o →
      (o.isTick || s.stops u o || s.closes o → s.rests u) → Brings start u (σ ++ s.brings u o) (s.apply o)

variable {drawn : Uuid → Prop} {p : Post} {start s s' s'' : State} {u : Nat} {w : Worker} {sub : Subscription}
  {d : Desk} {v : View} {pend : List Message} {σ τ : List (Nat × Incoming)} {policy : RetryPolicy} {o : Op} {b : Branch}

theorem isStopped_of (hw : s.tasks[u]? = some (.worker w)) : s.isStopped u = s.world.isCancelled w.context := by
  simp only [isStopped, hw]

theorem rests_of (hw : s.tasks[u]? = some (.worker w)) : s.rests u =
    match w.occupation with
    | .idle => s.lacks w
    | .busy m c => c.waits && !c.isReady s.world || !w.handler.canRead m.payload && s.lacks w
    | .ended _ => true := by
  simp only [rests, hw]

theorem Op.isTurnOf_eq_false : o.isTurnOf u = false ↔ ∀ b, o ≠ .turn u b := by
  cases o <;> simp [isTurnOf]

theorem stops_turn : s.stops u (.turn u b) = false := by simp [stops, Op.isTurnOf]

/-- What others do not cancel is cancelled after the step if it was before. -/
theorem isCancelled_of_not_stops (hw : s.tasks[u]? = some (.worker w)) (hw' : (s.apply o).tasks[u]? = some (.worker w))
    (hallows : s.Allows o) (hn : ∀ b, o ≠ .turn u b) (hs : s.stops u o = false) :
    (s.apply o).world.isCancelled w.context = s.world.isCancelled w.context := by
  rw [stops, Op.isTurnOf_eq_false.mpr hn, isStopped_of hw, isStopped_of hw'] at hs
  cases hc : s.world.isCancelled w.context with
  | true => exact (apply_step hallows).cancelled hc
  | false => simpa [hc] using hs

theorem brings_of (hs : s.stops u o = false) (hc : s.closes o = false) {new : List Message}
    (hr : (s.apply o).received u = s.received u ++ new) : s.brings u o = Incoming.at s.world.clock new := by
  rw [brings, hs, hc, hr, List.drop_left]
  rfl

theorem time_of_brings {e : Nat × Incoming} (he : e ∈ s.brings u o) : e.1 = s.world.clock := by
  have single : ∀ {b : Bool} {i : Incoming}, e ∈ (if b then [(s.world.clock, i)] else []) → e.1 = s.world.clock :=
    fun {b i} he => by
      cases b with
      | false => cases he
      | true => rw [List.mem_singleton.mp he]
  rw [brings] at he
  rcases List.mem_append.mp he with he | he
  · exact single he
  · rcases List.mem_append.mp he with he | he
    · exact single he
    · obtain ⟨m, -, rfl⟩ := List.mem_map.mp he
      rfl

theorem Upright.not_closes (hs : s.Upright drawn p.transport policy) (hk : o.OfBroker) (hc : o ≠ .closeExchange)
    (hallows : s.Allows o) : s.closes o = false := by
  rw [closes, (hs.firm hk hc hallows).closed, Bool.not_and_self]

/-! ### One step after another -/

theorem LeadsOn.refl (hv : s.Accords drawn p u v pend) : s.LeadsOn drawn p u v pend [] s :=
  ⟨v, pend, hv, fun _ _ => .refl⟩

theorem LeadsOn.clock_le (h : s.LeadsOn drawn p u v pend σ s') : s.world.clock ≤ s'.world.clock := by
  obtain ⟨v', pend', -, hl⟩ := h
  exact (hl [] fun _ he => nomatch he).clock_le

theorem LeadsOn.trans (h : s.LeadsOn drawn p u v pend σ s') (hτ : ∀ e ∈ τ, s'.world.clock ≤ e.1)
    (h' : ∀ {v' pend'}, s'.Accords drawn p u v' pend' → s'.LeadsOn drawn p u v' pend' τ s'') :
    s.LeadsOn drawn p u v pend (σ ++ τ) s'' := by
  obtain ⟨v', pend', hv', hl⟩ := h
  have hlater := (h' hv').clock_le
  obtain ⟨v'', pend'', hv'', hl'⟩ := h' hv'
  refine ⟨v'', pend'', hv'', fun rest hrest => .trans ?_ (hl' rest hrest)⟩
  rw [List.append_assoc σ τ rest]
  refine hl (τ ++ rest) fun e he => ?_
  exact (List.mem_append.mp he).elim (hτ e) fun he => Nat.le_trans hlater (hrest e he)

/-! ### Steps of its own -/

theorem Accords.turn (hv : s.Accords drawn p u v pend) (hs : s.Upright drawn p.transport policy)
    (hb : p.route.handler.Blind drawn) (hallows : s.Allows (.turn u b)) :
    s.LeadsOn drawn p u v pend (p.route.handler.sieve drawn (s.brings u (.turn u b))) (s.apply (.turn u b)) := by
  have hcloses := hs.not_closes (show Op.OfBroker (.turn u b) from trivial) nofun hallows
  cases hv with
  | serving ha =>
    obtain ⟨new, hreceived, hl⟩ := ha.turn (b := b) hs hb
    rw [brings_of stops_turn hcloses hreceived, Handler.sieve_messages]
    exact hl
  | ended hw ho =>
    obtain ⟨active, he⟩ := turn_stays b hw (by simp [microWorker, ho])
    rw [brings_of stops_turn hcloses (s := s) (by rw [he, List.append_nil]; rfl), he]
    exact .refl (.ended hw ho)

/-! ### Steps of others -/

/-- Others leave a worker as it is. -/
theorem worker_stays (hw : s.tasks[u]? = some (.worker w)) (hallows : s.Allows o) (hn : ∀ b, o ≠ .turn u b) :
    (s.apply o).tasks[u]? = some (.worker w) := by
  rcases (apply_step hallows).worker hw with ⟨b, -, ho, -⟩ | ⟨-, hw'⟩
  · exact absurd ho (hn b)
  · exact hw'

/-- The steps of others put messages into the worker's queue, and may cancel its run. -/
theorem Attends.others {tokens : Tokens} (ha : s.Attends drawn p u w sub d pend)
    (hs : s.Upright drawn p.transport policy) (hk : o.OfBroker) (hc : o ≠ .closeExchange) (hallows : s.Allows o)
    (hn : ∀ b, o ≠ .turn u b) (hcancelled : tokens.isCancelled d.run.token = (s.apply o).world.isCancelled w.context)
    (hmade : d.run.token < tokens.next) : ∃ new sub', (s.apply o).received u = s.received u ++ new ∧
      (s.apply o).Attends drawn p u w sub' { d with tokens } (pend ++ p.route.handler.sift drawn new) := by
  obtain ⟨_, _, _, hserving⟩ := hs.orderly.course.serving_of_worker ha.worker
  have hw := worker_stays ha.worker hallows hn
  obtain ⟨sub', hsub, hfed⟩ := (apply_step hallows).feeds ha.subscription ha.worker rfl fun t b k ho hk hr => by
    cases k with
    | worker k => exact hn b (hserving.distinct hk ha.worker hr ▸ ho)
    | run v =>
      cases v with
      | subscribing run' made rest => exact hserving.not_subscribing hk
      | fresh _ | watching _ _ _ | draining _ _ _ | ended _ => cases hr
    | close _ | awaitStart _ | call _ | errand _ _ _ | alarm _ _ _ => cases hr
  obtain ⟨new, hqueue, haccepted, -⟩ := hfed.fed
  refine ⟨new.map (·.2), sub', ?_, hw, ha.place, ha.handler, ha.stages, ha.run, hsub, ?_, hcancelled, hmade, ?_,
    (hs.firm hk hc hallows).closed ▸ ha.call, fun ho hp he => ?_⟩
  · rw [received_of hw hsub, received_of ha.worker ha.subscription, haccepted, List.map_append]
  · rw [← ha.place, hs.calls hk hallows ha.worker hn, ha.place]
    exact ha.count
  · rw [hqueue, Handler.sift_append, ha.inbox, List.append_assoc]
  · exact (apply_step hallows).exchange (P := fun e => e.Declines _) (fun o hd => hd.step o)
      (ha.turned ho hp ((hs.firm hk hc hallows).closed ▸ he))

/-- A step of others by which no time passes and neither the run nor the exchange comes to its end. -/
theorem Accords.others (hv : s.Accords drawn p u v pend) (hs : s.Upright drawn p.transport policy) (hk : o.OfBroker)
    (hc : o ≠ .closeExchange) (hallows : s.Allows o) (hn : ∀ b, o ≠ .turn u b) (htick : ∀ ms, o ≠ .tick ms)
    (hstops : s.stops u o = false) :
    s.LeadsOn drawn p u v pend (p.route.handler.sieve drawn (s.brings u o)) (s.apply o) := by
  have hcalled : (s.apply o).world.called drawn u = s.world.called drawn u := by
    rw [World.called, World.called, (apply_step hallows).arrivals hn]
  have hclock := hs.clock hk hallows htick
  have hclosed := (hs.firm hk hc hallows).closed
  have hcloses := hs.not_closes hk hc hallows
  cases hv with
  | serving ha =>
    have hcancelled := isCancelled_of_not_stops ha.worker (worker_stays ha.worker hallows hn) hallows hn hstops
    obtain ⟨new, sub', hreceived, ha'⟩ := ha.others hs hk hc hallows hn (ha.cancelled.trans hcancelled.symm) ha.made
    rw [brings_of hstops hcloses hreceived, Handler.sieve_messages]
    exact .stays _ (.serving ha') hclock hclosed hcalled
  | ended hw ho =>
    rw [brings, hstops, hcloses, if_neg Bool.false_ne_true, if_neg Bool.false_ne_true, List.nil_append, List.nil_append,
      Handler.sieve_messages]
    exact .stays _ (.ended (worker_stays hw hallows hn) ho) hclock hclosed hcalled

/-! ### Rest -/

theorem sift_of_lacks {h : Handler} (hl : s.lacks w = true) (hh : w.handler = h)
    (hsub : s.world.exchange.subscriptions[w.subscription]? = some sub) :
    s.world.exchange.closed = false ∧ s.world.isCancelled w.context = false ∧ h.sift drawn sub.queue = [] := by
  obtain rfl := hh
  simp only [lacks, hsub, Option.all_some, Bool.and_eq_true, Bool.not_eq_true', Bool.or_eq_false_iff,
    List.all_eq_true] at hl
  refine ⟨hl.1.1, hl.1.2, ?_⟩
  rw [Handler.sift, List.filter_eq_nil_iff.mpr fun m hm => by simp [hl.2 m hm], List.map_nil]

/-- What a worker that rests is doing: its call waits, or is one for a message that cannot be read. -/
theorem Attends.busy_of_rests {m : Message} {c : Call} (ha : s.Attends drawn p u w sub d pend) (hr : s.rests u = true)
    (ho : w.occupation = .busy m c) :
    (c.waits = true ∧ c.isReady s.world = false ∧ d.call = some (c.veil drawn)) ∨
      (s.lacks w = true ∧ d.call = none ∧ c.Refuses p.route.handler) := by
  have hcall := ha.call
  rw [rests_of ha.worker, ho] at hr
  rw [ho] at hcall
  simp only [ha.handler, Bool.or_eq_true, Bool.and_eq_true, Bool.not_eq_true'] at hr
  rcases hcall.of_busy with ⟨hread, hd⟩ | ⟨hread, hd, hrefuses⟩
  · obtain ⟨hwaits, hready⟩ := hr.resolve_right fun h => by simp [h.1] at hread
    exact .inl ⟨hwaits, hready, by rw [hd, Call.onward_of_unsent (Call.unsent_of_waits hwaits)]⟩
  · exact .inr ⟨(hr.resolve_left fun h => Call.not_refuses_of_waits h.1 hrefuses).2, hd, hrefuses⟩

/-- A worker that rests can do nothing now, nor before a timer is due, and it can do no more when it is given what
    pends. -/
theorem Attends.rests {now : Nat} {ms : List Message} (ha : s.Attends drawn p u w sub d pend)
    (hs : s.Upright drawn p.transport policy) (hr : s.rests u = true)
    (hn : now = s.world.clock ∨ ∀ timer ∈ s.timers, now < timer.due) (hms : ms <+: pend) :
    ((View.serving d).receives ms).canMove p.place now s.world.exchange.closed = false := by
  rw [View.receives_serving]
  have lacking : s.lacks w = true → d.call = none →
      (View.serving { d with inbox := d.inbox ++ ms }).canMove p.place now s.world.exchange.closed = false :=
        fun hl hd => by
    obtain ⟨hopen, hlive, hsift⟩ := sift_of_lacks hl ha.handler ha.subscription
    obtain ⟨hinbox, rfl⟩ := List.append_eq_nil_iff.mp (ha.inbox.symm.trans hsift)
    simp [View.canMove, Desk.canMove, Desk.isReady, hd, hinbox, hopen, ha.cancelled, hlive, List.prefix_nil.mp hms]
  cases ho : w.occupation with
  | ended f =>
    have hcall := ha.call
    rw [ho] at hcall
    cases hcall
  | idle =>
    rw [rests_of ha.worker, ho] at hr
    exact lacking hr (ho ▸ ha.call).of_idle
  | busy m c =>
    rcases ha.busy_of_rests hr ho with ⟨hwaits, hready, hd⟩ | ⟨hl, hd, -⟩
    · obtain ⟨hstands, -, -⟩ := ha.busy hs ho
      have hlater : c.isReady { s.world with clock := now } = false := by
        rcases hn with rfl | hn
        · exact hready
        · refine Call.isReady_later hready fun timer ht => hn timer ?_
          exact List.mem_filterMap.mpr ⟨_, List.mem_of_getElem? ha.worker, by simp [Task.timer?, ho, ht]⟩
      have hsame : (c.veil drawn).isReady (Desk.world { d with inbox := d.inbox ++ ms } p.place now) =
          c.isReady { s.world with clock := now } :=
        Call.isReady_likened hstands (Call.unsent_of_waits hwaits) rfl (by
          show d.tokens.isCancelled w.context.token = _
          rw [← ha.run]
          exact ha.cancelled.trans (by rw [ha.run]; rfl))
      simp only [View.canMove, Desk.canMove, Desk.isReady, hd, Call.outcome?_veil, Call.outcome?_of_waits hwaits,
        Option.isSome_none, Option.isNone_some, Bool.false_or, Bool.and_false, Bool.or_false]
      exact hsame.trans hlater
    · exact lacking hl hd

theorem Attends.gives (ha : s.Attends drawn p u w sub d pend) :
    s.Attends drawn p u w sub { d with inbox := d.inbox ++ pend } [] :=
  { ha with inbox := by rw [ha.inbox, List.append_nil] }

/-- A worker that rests is given what pends, and rests with it. -/
theorem Accords.rests (hv : s.Accords drawn p u v pend) (hs : s.Upright drawn p.transport policy)
    (hr : s.rests u = true) : ∃ v', s.Accords drawn p u v' [] ∧
      (∀ now, now = s.world.clock ∨ (∀ timer ∈ s.timers, now < timer.due) →
        v'.canMove p.place now s.world.exchange.closed = false) ∧
      ∀ calls rest, Sitting.Leads drawn p
        ⟨v, s.world.clock, s.world.exchange.closed, calls, Incoming.at s.world.clock pend ++ rest⟩
        ⟨v', s.world.clock, s.world.exchange.closed, calls, rest⟩ := by
  cases hv with
  | serving ha =>
    have hready : ∀ now ms, now = s.world.clock ∨ (∀ timer ∈ s.timers, now < timer.due) → ms <+: pend →
        ((View.serving _).receives ms).canMove p.place now s.world.exchange.closed = false := fun _ _ => ha.rests hs hr
    refine ⟨_, .serving ha.gives, fun now hn => ?_, fun calls rest => ?_⟩
    · rw [← View.receives_serving]
      exact hready now _ hn (List.prefix_refl _)
    · rw [← View.receives_serving]
      exact .gives fun ms hms => hready _ ms (.inl rfl) hms
  | ended hw ho =>
    refine ⟨_, .ended hw ho, fun _ _ => rfl, fun calls rest => ?_⟩
    have := @Sitting.Leads.gives drawn p .ended s.world.clock s.world.exchange.closed calls rest pend fun ms _ => by
      rw [View.receives_ended]
      rfl
    rwa [View.receives_ended] at this

/-- The run of a worker that rests is cancelled. -/
theorem Accords.stops (hv : s.Accords drawn p u v pend) (hs : s.Upright drawn p.transport policy) (hk : o.OfBroker)
    (hc : o ≠ .closeExchange) (hallows : s.Allows o) (hn : ∀ b, o ≠ .turn u b) (htick : ∀ ms, o ≠ .tick ms)
    (hstops : s.stops u o = true) (hr : s.rests u = true) :
    s.LeadsOn drawn p u v pend (p.route.handler.sieve drawn (s.brings u o)) (s.apply o) := by
  have hcalled : (s.apply o).world.called drawn u = s.world.called drawn u := by
    rw [World.called, World.called, (apply_step hallows).arrivals hn]
  have hclock := hs.clock hk hallows htick
  have hclosed := (hs.firm hk hc hallows).closed
  obtain ⟨v', hv', hready, hgives⟩ := hv.rests hs hr
  let new := p.route.handler.sift drawn (((s.apply o).received u).drop (s.received u).length)
  have hbrings : p.route.handler.sieve drawn (s.brings u o) =
      (s.world.clock, .stop) :: Incoming.at s.world.clock new := by
    rw [brings, hstops, hs.not_closes hk hc hallows, if_pos rfl, if_neg Bool.false_ne_true, List.nil_append,
      Handler.sieve_append, Handler.sieve_messages]
    rfl
  have hafter : (s.apply o).Accords drawn p u (v'.receive .stop) new := by
    cases hv' with
    | @serving w _ _ _ ha =>
      have hstopped : (s.apply o).world.isCancelled w.context = true := by
        rw [← isStopped_of (worker_stays ha.worker hallows hn)]
        simp only [State.stops, Bool.and_eq_true] at hstops
        exact hstops.2.2
      obtain ⟨more, sub', hreceived, ha'⟩ := ha.others hs hk hc hallows hn
        ((Tokens.isCancelled_cancel_self ha.made).trans hstopped.symm)
        (by simpa [Tokens.cancel, Tokens.next] using ha.made)
      rw [List.nil_append] at ha'
      have hnew : new = p.route.handler.sift drawn more := by
        show p.route.handler.sift drawn _ = _
        rw [hreceived, List.drop_left]
      rw [hnew]
      exact .serving ha'
    | ended hw ho => exact .ended (worker_stays hw hallows hn) ho
  refine ⟨_, _, hafter, fun rest _ => ?_⟩
  rw [hclock, hclosed, hcalled, hbrings]
  refine (hgives _ _).trans ?_
  have hnext := @Sitting.Leads.one drawn p ⟨v', s.world.clock, s.world.exchange.closed, s.world.called drawn u,
    (s.world.clock, .stop) :: Incoming.at s.world.clock new ++ rest⟩
  rwa [Sitting.next_of_incoming (hready _ (.inl rfl)) rfl rfl] at hnext

theorem closeExchange_subscriptions (ha : s.world.aside = none) :
    (s.apply .closeExchange).world.exchange.subscriptions = s.world.exchange.subscriptions := by
  rw [closeExchange_world ha]
  show s.world.exchange.close.subscriptions = _
  cases hc : s.world.exchange.closed with
  | true => rw [Hub.close_of_closed hc]
  | false => rw [Hub.close_of_open hc]

theorem closeExchange_received (ha : s.world.aside = none) : (s.apply .closeExchange).received u = s.received u := by
  unfold received
  rw [closeExchange_subscriptions ha]
  rfl

theorem closeExchange_stops (ha : s.world.aside = none) : s.stops u .closeExchange = false := by
  have hsame : (s.apply .closeExchange).isStopped u = s.isStopped u := by
    unfold isStopped
    rw [closeExchange_world ha]
    rfl
  rw [stops, hsame, Bool.not_and_self, Bool.and_false]

/-- The exchange is closed while the worker rests. -/
theorem Attends.closes (ha : s.Attends drawn p u w sub d pend) (hs : s.Upright drawn p.transport policy)
    (hr : s.rests u = true) : (s.apply .closeExchange).Attends drawn p u w sub d pend := by
  have hunsent : ∀ {m : Message} {c : Call}, w.occupation = .busy m c → c.Unsent := fun ho =>
    (ha.busy_of_rests hr ho).elim (fun h => Call.unsent_of_waits h.1) fun h => h.2.2.unsent
  have hcall : ∀ closed, w.occupation.ShownAs drawn closed p.route.handler d.call := fun closed => by
    have hcall := ha.call
    cases ho : w.occupation with
    | ended f =>
      rw [ho] at hcall
      cases hcall
    | idle =>
      rw [ho] at hcall
      rw [hcall.of_idle]
      exact .idle
    | busy m c =>
      rw [ho] at hcall
      rcases hcall.of_busy with ⟨hread, hd⟩ | ⟨hread, hd, hrefuses⟩
      · have hshown : (Occupation.busy m c).ShownAs drawn closed p.route.handler
            (some ((c.onward closed).veil drawn)) := .busy hread
        rw [hd, Call.onward_of_unsent (hunsent ho)]
        rwa [Call.onward_of_unsent (hunsent ho)] at hshown
      · rw [hd]
        exact .refusing hread hrefuses
  have hworld := closeExchange_world hs.aside
  refine ⟨ha.worker, ha.place, ha.handler, ha.stages, ha.run, ?_, ?_, ?_, ha.made, ha.inbox, hcall _, fun ho hp _ => ?_⟩
  · rw [closeExchange_subscriptions hs.aside]
    exact ha.subscription
  · rw [hworld]
    exact ha.count
  · rw [hworld]
    exact ha.cancelled
  · exact absurd hp (hunsent ho _ _ _ _ _ _)

theorem closeExchange_of_closed (ha : s.world.aside = none) (hc : s.world.exchange.closed = true) :
    s.apply .closeExchange = s := by
  dsimp only [apply, withExchange, plainExchange]
  rw [World.exchangeOf_eq ha, World.setExchange_eq ha, Hub.close_of_closed hc]

theorem Accords.closes (hv : s.Accords drawn p u v pend) (hs : s.Upright drawn p.transport policy)
    (hr : s.closes .closeExchange = true → s.rests u = true) :
    s.LeadsOn drawn p u v pend (p.route.handler.sieve drawn (s.brings u .closeExchange)) (s.apply .closeExchange) := by
  have hworld := closeExchange_world hs.aside
  have hreceived : (s.apply .closeExchange).received u = s.received u ++ [] := by
    rw [closeExchange_received hs.aside, List.append_nil]
  cases hc : s.world.exchange.closed with
  | true =>
    have hcloses : s.closes .closeExchange = false := by rw [State.closes, hc]; rfl
    rw [brings_of (closeExchange_stops hs.aside) hcloses hreceived, closeExchange_of_closed hs.aside hc]
    exact .refl hv
  | false =>
    have hclosed : (s.apply .closeExchange).world.exchange.closed = true := by
      rw [hworld]
      exact Hub.closed_close s.world.exchange
    have hcloses : s.closes .closeExchange = true := by rw [State.closes, hc, hclosed]; rfl
    have hbrings : p.route.handler.sieve drawn (s.brings u .closeExchange) = [(s.world.clock, .close)] := by
      rw [brings, closeExchange_stops hs.aside, hcloses, hreceived, List.drop_left]
      rfl
    obtain ⟨v', hv', hready, hgives⟩ := hv.rests hs (hr hcloses)
    have hafter : (s.apply .closeExchange).Accords drawn p u v' [] := by
      cases hv' with
      | serving ha => exact .serving (ha.closes hs (hr hcloses))
      | ended hw ho => exact .ended hw ho
    refine ⟨v', [], hafter, fun rest _ => ?_⟩
    have hnext := @Sitting.Leads.one drawn p ⟨v', s.world.clock, s.world.exchange.closed, s.world.called drawn u,
      (s.world.clock, .close) :: rest⟩
    rw [Sitting.next_of_ahead (hready _ (.inl rfl)) rfl, show v'.receive .close = v' by cases v' <;> rfl] at hnext
    rw [hbrings, hclosed, hworld]
    refine (hgives _ _).trans ?_
    rwa [← Bool.or_true s.world.exchange.closed]

/-- Time passes for a worker that rests. -/
theorem Accords.tick {ms : Nat} (hv : s.Accords drawn p u v pend) (hs : s.Upright drawn p.transport policy)
    (hallows : s.Allows (.tick ms)) (hr : s.rests u = true) :
    s.LeadsOn drawn p u v pend (p.route.handler.sieve drawn (s.brings u (.tick ms))) (s.apply (.tick ms)) := by
  have hcloses := hs.not_closes (o := .tick ms) trivial nofun hallows
  obtain ⟨v', hv', hready, hgives⟩ := hv.rests hs hr
  obtain ⟨-, -, htimers⟩ := hallows
  have hafter : (s.apply (.tick ms)).Accords drawn p u v' [] := by
    cases hv' with
    | serving ha => exact .serving { ha with }
    | ended hw ho => exact .ended hw ho
  have hstops : s.stops u (.tick ms) = false := by
    show (true && (!s.isStopped u && s.isStopped u)) = false
    cases s.isStopped u <;> rfl
  have hreceived : (s.apply (.tick ms)).received u = s.received u ++ [] := (List.append_nil _).symm
  rw [brings_of hstops hcloses hreceived]
  refine ⟨v', [], hafter, fun rest hrest => (hgives _ _).trans ?_⟩
  exact .waits hrest fun k hk => hready _ (.inr fun timer ht =>
    Nat.lt_of_lt_of_le (Nat.add_lt_add_left hk _) (htimers timer ht))

/-! ### Whole runs -/

theorem Accords.step (hv : s.Accords drawn p u v pend) (hs : s.Upright drawn p.transport policy)
    (hb : p.route.handler.Blind drawn) (hk : o.OfBroker) (hallows : s.Allows o)
    (hr : o.isTick || s.stops u o || s.closes o → s.rests u) :
    s.LeadsOn drawn p u v pend (p.route.handler.sieve drawn (s.brings u o)) (s.apply o) := by
  by_cases hturn : ∃ b, o = .turn u b
  · obtain ⟨b, rfl⟩ := hturn
    exact hv.turn hs hb hallows
  have hn : ∀ b, o ≠ .turn u b := fun b he => hturn ⟨b, he⟩
  by_cases htick : ∃ ms, o = .tick ms
  · obtain ⟨ms, rfl⟩ := htick
    exact hv.tick hs hallows (hr rfl)
  have hnotick : ∀ ms, o ≠ .tick ms := fun ms he => htick ⟨ms, he⟩
  by_cases hc : o = .closeExchange
  · subst hc
    exact hv.closes hs fun h => hr (by simp [h])
  cases hstops : s.stops u o with
  | false => exact hv.others hs hk hc hallows hn hnotick hstops
  | true => exact hv.stops hs hk hc hallows hn hnotick hstops (hr (by simp [hstops]))

/-- At any time the worker has come to where its course leads, given the messages that its handler can read. -/
theorem Brings.leads (hp : start.Brings u σ s) (h₀ : start.Upright drawn p.transport policy)
    (hb : p.route.handler.Blind drawn) (hv : start.Accords drawn p u v pend) :
    s.Upright drawn p.transport policy ∧ start.LeadsOn drawn p u v pend (p.route.handler.sieve drawn σ) s := by
  induction hp with
  | start => exact ⟨h₀, .refl hv⟩
  | @step σ s o _ hk hallows hr ih =>
    obtain ⟨hs, hl⟩ := ih
    refine ⟨hs.step hk hallows, ?_⟩
    rw [Handler.sieve_append]
    refine hl.trans (fun e he => ?_) fun hv => hv.step hs hb hk hallows hr
    obtain ⟨e', he', hsift⟩ := List.mem_filterMap.mp he
    obtain ⟨i, -, rfl⟩ := Option.map_eq_some_iff.mp hsift
    exact Nat.le_of_eq (time_of_brings he').symm

end State
end Relay
