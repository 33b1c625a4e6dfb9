import Relay.Proofs.Causal.Attempts
import Relay.Proofs.Router.Delivery

/-! The draws of a broker, by the dealing that each was made for. A ledger is kept along a run: the draws of a turn
    are booked on the last dealing of the task that moves, and those from the outside on nobody. What the attempts
    at a message draw is booked on its dealing (`State.Ledger`), and every call of a handler is one of these
    attempts (`State.Listed`). -/

namespace Relay

/-! ### The dealings of a worker -/

namespace Dealing
variable {draws : Nat → Uuid} {mine mine' : Nat → Prop} {h : Handler} {spanned : Prop} {d : Dealing} {es : List Event}

theorem Told.mono (hd : d.Told draws mine h spanned) (hm : ∀ n, mine n → mine' n) : d.Told draws mine' h spanned := by
  rcases hd with ha | ⟨id, new, spans, hs, hmine⟩
  · exact .inl ha
  · exact .inr ⟨id, new, spans, hs, fun n hn => hm n (hmine n hn)⟩

theorem Told.silent (hd : d.Told draws mine h spanned) (he : es.filterMap Event.attempt? = []) :
    (d.andThen es).Told draws mine h spanned := by
  rcases hd with ha | ⟨id, new, spans, hs, hmine⟩
  · left
    rw [attempts_andThen, ha, he]
    rfl
  · exact .inr ⟨id, new, spans, hs.silent he, hmine⟩

/-- Behind the first message that was taken, dealings lose no call of a handler. -/
theorem flatMap_attempts_foldl {ds : List Dealing} (h : ds ≠ [] ∨ es.filterMap Event.attempt? = []) :
    (es.foldl next ds).flatMap attempts = ds.flatMap attempts ++ es.filterMap Event.attempt? := by
  induction es generalizing ds with
  | nil => simp
  | cons e es ih =>
    rw [List.foldl_cons]
    cases ht : e.taken? with
    | some m =>
      have hnone : e.attempt? = none := by
        cases e with
        | taken _ _ => rfl
        | settled _ _ _ | entered _ | left _ | called _ _ _ _ _ | returned _ _ _ _ | spanned _ _ | noticed _ => cases ht
      rw [next_of_taken ht, ih (.inl (by simp)), List.filterMap_cons_none hnone]
      simp [attempts]
    | none =>
      rcases List.eq_nil_or_concat ds with rfl | ⟨ds, d, rfl⟩
      · have hquiet := h.resolve_left fun hne => hne rfl
        have hnext : next [] e = [] := by simp [next, ht]
        have hrest : es.filterMap Event.attempt? = [] := List.filterMap_eq_nil_iff.mpr fun e' he' =>
          List.filterMap_eq_nil_iff.mp hquiet e' (List.mem_cons_of_mem _ he')
        rw [hnext, ih (.inr hrest), hquiet, hrest]
      · rw [List.concat_eq_append, next_of_last ht, ih (.inl (by simp)), List.filterMap_cons]
        cases ha : e.attempt? <;> simp [attempts, andThen, ha]

end Dealing

namespace Worker
variable {draws : Nat → Uuid} {mine mine' : Nat → Nat → Prop} {p : RetryPolicy} {ds done : List Dealing} {d : Dealing}
  {t : Nat} {x x' : World} {w w' : Worker}

/-- Each dealing of a worker tells of attempts with one identity, with the draws that are its own. -/
structure Pursues (draws : Nat → Uuid) (mine : Nat → Nat → Prop) (ds : List Dealing) (w : Worker) : Prop where
  told : ∀ {i : Nat} {d : Dealing}, ds[i]? = some d → d.Told draws (mine i) w.handler (Broker.OpensSpans w.stages)
  busy : ∀ {m : Message} {c : Call}, w.occupation = .busy m c → ∃ done d, ds = done ++ [d] ∧
    c.Pursues draws (mine done.length) w.context.token w.handler (Broker.OpensSpans w.stages) d

namespace Pursues

theorem mono (hw : w.Pursues draws mine ds) (hm : ∀ i n, mine i n → mine' i n) : w.Pursues draws mine' ds where
  told hd := (hw.told hd).mono (hm _)
  busy ho := by
    obtain ⟨done, d, hds, hc⟩ := hw.busy ho
    exact ⟨done, d, hds, hc.mono (hm _)⟩

theorem told_last {d' : Dealing} (hw : w.Pursues draws mine (done ++ [d]))
    (hd : d'.Told draws (mine done.length) w.handler (Broker.OpensSpans w.stages)) {i : Nat} {e : Dealing}
    (he : (done ++ [d'])[i]? = some e) : e.Told draws (mine i) w.handler (Broker.OpensSpans w.stages) := by
  rcases getElem?_concat_cases he with hold | ⟨rfl, rfl⟩
  · exact hw.told ((List.getElem?_append_left (List.getElem?_eq_some_iff.mp hold).1).trans hold)
  · exact hd

/-- A message has come to its end. -/
theorem settles {m : Message} {c : Call} {es : List Event} (hw : w.Pursues draws mine (x.dealings t))
    (ho : w.occupation = .busy m c) (hh : x'.history t = x.history t ++ es) (ht : ∀ e ∈ es, e.taken? = none)
    (he : es.filterMap Event.attempt? = []) (hhandler : w'.handler = w.handler) (hstages : w'.stages = w.stages)
    (hout : ∀ m c, w'.occupation ≠ .busy m c) : w'.Pursues draws mine (x'.dealings t) := by
  obtain ⟨done, d, hds, hc⟩ := hw.busy ho
  rw [hds] at hw
  refine ⟨fun hd => ?_, fun ho' => absurd ho' (hout _ _)⟩
  rw [World.dealings_append hh ht hds] at hd
  rw [hhandler, hstages]
  exact hw.told_last (hc.told.silent he) hd

end Pursues

/-- A worker's own step, if what it draws is booked on its last dealing. -/
theorem Moves.pursues (h : w.Moves t x x' w') (hb : Broker.IsChain p w.stages)
    (hc : ∀ {m : Message} {c : Call}, w.occupation = .busy m c →
      c.Stands w.context.token w.stages ∧ c.handler = some w.handler)
    (hdraws : x.ids.draws = draws) (hkeep : ∀ i n, mine i n → n < x.ids.used ∧ mine' i n)
    (hnew : ∀ n, x.ids.used ≤ n → n < x'.ids.used → mine' ((x.dealings t).length - 1) n)
    (hw : w.Pursues draws mine (x.dealings t)) : w'.Pursues draws mine' (x'.dealings t) := by
  have hkept := hw.mono fun i n hn => (hkeep i n hn).2
  cases h with
  | stays => exact hkept
  | @takes sub m rest _ _ _ _ =>
    have hh := World.history_note_self
      { x with exchange := x.exchange.updateSubscription w.subscription (·.take m rest) } t (.taken w.route m)
    rw [World.dealings_of_taken (w := x) hh]
    refine ⟨fun hd => ?_, fun ho => ?_⟩
    · rcases getElem?_concat_cases hd with hold | ⟨-, rfl⟩
      · exact hkept.told hold
      · exact .inl rfl
    · cases ho
      exact ⟨_, _, rfl, .unnamed rfl rfl (Nat.zero_le 1)⟩
  | stops _ _ =>
    show Worker.Pursues draws mine' (x.dealings t) _
    exact ⟨hkept.told, nofun⟩
  | works ho _ hm =>
    obtain ⟨done, d, hds, hpursues⟩ := hw.busy ho
    obtain ⟨hstands, hhandler⟩ := hc ho
    have hlast : (x.dealings t).length - 1 = done.length := by simp [hds]
    obtain ⟨es, hh, hpursues⟩ := hm.pursues hb hstands hdraws (hkeep done.length) (hlast ▸ hnew) hhandler
      hb.length_of_opensSpans hpursues
    rw [hds] at hkept
    rw [World.dealings_append hh (fun e he => Event.taken?_of_isInner (hm.inner hh e he)) hds]
    refine ⟨hkept.told_last hpursues.told, fun ho' => ?_⟩
    cases ho'
    exact ⟨done, _, rfl, hpursues⟩
  | succeeds ho _ =>
    exact hkept.settles ho (World.history_note_self _ _ _) (by simp [Event.taken?]) rfl rfl rfl (by simp)
  | @fails m c e lastError ho _ _ =>
    have hh : ((x.note t (.settled w.route m (.failed e))).note t
        (.noticed (.messageFailed w.name w.topic m.id e))).history t = x.history t ++
          [.settled w.route m (.failed e), .noticed (.messageFailed w.name w.topic m.id e)] := Call.noted_two rfl
    exact hkept.settles ho hh (by simp [Event.taken?]) (by simp [Event.attempt?]) rfl rfl (by simp)
  | @breaksOff m c reason ho _ =>
    have hes : ∀ e ∈ [Event.settled w.route m (.panicked reason), .noticed (.workerPanicked w.name)],
        e.taken? = none := by
      simp [Event.taken?]
    refine hkept.settles ho ?_ hes (by simp [Event.attempt?]) rfl rfl (by simp)
    simp [World.history, World.note]

end Worker

namespace State
variable {draws : Nat → Uuid} {owner : Nat → Option (Nat × Nat)} {p : RetryPolicy} {s s' : State} {o : Op} {t : Nat}

/-! ### The ledger -/

/-- Every draw that has an owner has been made, and the dealings of all workers have their draws to themselves. -/
structure Ledger (draws : Nat → Uuid) (owner : Nat → Option (Nat × Nat)) (s : State) : Prop where
  supply : s.world.ids.draws = draws
  drawn : ∀ {n : Nat} {i : Nat × Nat}, owner n = some i → n < s.world.ids.used
  workers : ∀ {t : Nat} {w : Worker}, s.tasks[t]? = some (.worker w) →
    w.Pursues draws (fun i n => owner n = some (t, i)) (s.world.dealings t)

/-- The dealing that an operation draws for. -/
def debtor (s : State) : Op → Option (Nat × Nat)
  | .turn t _ => some (t, (s.world.dealings t).length - 1)
  | _ => none

/-- The owners of the draws, with those of the draws between two states. -/
def book (s s' : State) (o : Op) (owner : Nat → Option (Nat × Nat)) : Nat → Option (Nat × Nat) :=
  fun n => if s.world.ids.used ≤ n ∧ n < s'.world.ids.used then s.debtor o else owner n

theorem Ledger.step (hl : s.Ledger draws owner) (hi : s.Orderly p) (hd : s.Delivers) (h : s.Step o s')
    (hg : s.world.ids.Grows s'.world.ids) : s'.Ledger draws (s.book s' o owner) := by
  have hkeep : ∀ (t i n : Nat), owner n = some (t, i) → n < s.world.ids.used ∧ s.book s' o owner n = some (t, i) := by
    intro t i n hn
    have hlt := hl.drawn hn
    exact ⟨hlt, (if_neg (by omega)).trans hn⟩
  refine ⟨hg.draws.trans hl.supply, fun {n i} hn => ?_, fun {t w'} hw' => ?_⟩
  · unfold book at hn
    split at hn
    · exact (And.right ‹_›)
    · exact Nat.lt_of_lt_of_le (hl.drawn hn) hg.used
  · rcases h.worker_from hw' with ⟨b, w, rfl, hw, hm⟩ | ⟨hn, hw | ⟨_, _, _, _, _, _, -, -, -, hlen, hidle⟩⟩
    · exact hm.pursues (hi.chained.stages_of_worker hi.course hw) (hi.placed.calls hw) hl.supply (hkeep t)
        (fun n hle hlt => if_pos ⟨hle, hlt⟩) (hl.workers hw)
    · rw [World.dealings_eq (h.history (List.getElem?_eq_some_iff.mp hw).1 hn)]
      exact (hl.workers hw).mono fun i n hn => (hkeep t i n hn).2
    · -- a worker that has just begun has not taken anything
      have hnone : s'.world.dealings t = [] := (World.Tallied.of_idle fun e he => by
        obtain ⟨role, id, err, rfl⟩ := h.unborn hlen (hd.unborn t hlen) e he
        rfl).2
      rw [hnone]
      refine ⟨(nomatch ·), fun ho => ?_⟩
      rw [hidle] at ho
      cases ho

/-! ### All calls of handlers -/

/-- The dealings of a task list all calls of handlers in its history, and only workers have any. -/
structure Listed (s : State) : Prop where
  calls : ∀ t, (s.world.history t).filterMap Event.attempt? = (s.world.dealings t).flatMap Dealing.attempts
  workers : ∀ {t : Nat}, (∀ w, s.tasks[t]? ≠ some (.worker w)) → (s.world.history t).filterMap Event.attempt? = []

/-- What a step adds to a history has no call of a handler in it, or is the history of a worker at work. -/
theorem Step.calls (h : s.Step o s') (hp : s.Placed) (t : Nat) : ∃ es, s'.world.history t = s.world.history t ++ es ∧
    (es.filterMap Event.attempt? = [] ∨ ∃ w m c, s.tasks[t]? = some (.worker w) ∧ w.occupation = .busy m c) := by
  have same : ∀ {s' : State}, s'.world.history t = s.world.history t →
      ∃ es, s'.world.history t = s.world.history t ++ es ∧
        (es.filterMap Event.attempt? = [] ∨ ∃ w m c, s.tasks[t]? = some (.worker w) ∧ w.occupation = .busy m c) :=
    fun hh => ⟨[], by rw [hh, List.append_nil], .inl rfl⟩
  cases h with
  | nobody _ _ _ => exact same rfl
  | outside _ _ h =>
    cases h with
    | registers _ _ | abandons _ _ => exact same (World.history_eq rfl t)
    | stirs hx | begins hx _ => exact same (World.history_eq hx.journal t)
    | refuses =>
      by_cases ht : s.tasks.length = t
      · subst ht
        exact ⟨_, World.history_note_self _ _ _, .inl rfl⟩
      · exact same (World.history_note_of_ne _ _ ht)
  | @turn t' b k k' x r new _ _ hk hm =>
    by_cases ht : t = t'
    · subst ht
      obtain ⟨es, hh, hw⟩ := hm.touches.history
      refine ⟨es, hh, ?_⟩
      by_cases hcall : ∃ e ∈ es, e.isCall = true
      · obtain ⟨e, he, hcall⟩ := hcall
        obtain ⟨c, ctx, m, h, hc, -, hh⟩ := hw e he hcall
        right
        cases k with
        | worker w =>
          cases ho : w.occupation with
          | busy m c => exact ⟨w, m, c, hk, ho⟩
          | idle | ended _ => simp [Task.call?, ho] at hc
        | call c' =>
          cases hc
          rw [(hp.programs hk).handler] at hh
          cases hh
        | errand e c' o =>
          cases hc
          rw [(hp.errands hk).handler] at hh
          cases hh
        | run _ | close _ | awaitStart _ | alarm _ _ _ => cases hc
      · exact .inl (Event.filterMap_attempt? fun e he => Bool.eq_false_iff.mpr fun hc => hcall ⟨e, he, hc⟩)
    · exact same (hm.touches.history_of_ne ht)

theorem Listed.step (hs : s.Listed) (hl : s.Ledger draws owner) (hp : s.Placed) (h : s.Step o s') : s'.Listed := by
  refine ⟨fun t => ?_, fun {t} hn => ?_⟩
  · obtain ⟨es, hh, hes⟩ := h.calls hp t
    have hne : s.world.dealings t ≠ [] ∨ es.filterMap Event.attempt? = [] := by
      rcases hes with hes | ⟨w, m, c, hw, ho⟩
      · exact .inr hes
      · obtain ⟨done, d, hds, -⟩ := (hl.workers hw).busy ho
        exact .inl (by simp [hds])
    rw [World.dealings, hh, List.foldl_append, ← World.dealings, Dealing.flatMap_attempts_foldl hne,
      List.filterMap_append, hs.calls t]
  · have hold : ∀ w, s.tasks[t]? ≠ some (.worker w) := fun w hw => by
      rcases h.worker hw with ⟨_, w', -, hw', -⟩ | ⟨-, hw'⟩ <;> exact hn _ hw'
    obtain ⟨es, hh, hes | ⟨w, _, _, hw, -⟩⟩ := h.calls hp t
    · rw [hh, List.filterMap_append, hs.workers hold, hes]
      rfl
    · exact absurd hw (hold w)

/-! ### The result -/

/-- What is kept of the draws and the calls of handlers of a broker. -/
structure Kept (p : RetryPolicy) (draws : Nat → Uuid) (s : State) : Prop where
  orderly : s.Orderly p
  delivers : s.Delivers
  listed : s.Listed
  ledger : ∃ owner, s.Ledger draws owner

theorem Kept.start {x : World} (hn : (Broker.start (Broker.defaultStages p) x).IsNew) :
    (Broker.start (Broker.defaultStages p) x).Kept p x.ids.draws where
  orderly := .start p x
  delivers := hn.delivers
  listed := by
    have hempty : ∀ t, (Broker.start (Broker.defaultStages p) x).world.history t = [] := fun t => by
      rw [World.history, hn.journal]
      rfl
    exact ⟨fun t => by rw [World.dealings, hempty]; rfl, fun {t} _ => by rw [hempty]; rfl⟩
  ledger := by
    refine ⟨fun _ => none, rfl, fun ho => ?_, fun {t w} hw => ?_⟩
    · cases ho
    · rw [hn.tasks] at hw
      cases hw

theorem Kept.runs (hs : s.Kept p draws) (h : Runs Op.OfBroker s s') : s'.Kept p draws := by
  induction h with
  | refl => exact hs
  | @step s₁ o _ hk ha ih =>
    have hstep := apply_step ha
    obtain ⟨owner, hledger⟩ := ih.ledger
    exact {
      orderly := ih.orderly.step hk hstep
      delivers := ih.delivers.step ih.orderly.course hstep
      listed := ih.listed.step hledger ih.orderly.placed hstep
      ledger := ⟨_, hledger.step ih.orderly ih.delivers hstep (s₁.apply_grows o)⟩ }

/-- The attempts at a message share one causal identity. For every message that a worker of a broker has taken, all
    calls of its handler see the same message or the value that it stands for, one identifier that is not empty, its
    own or one drawn for it, the baggage and the trace of its metadata; where the handler is of values, each is in
    the span of a draw of its own. No draw is made for two of these, at one message or at two, and every call of a
    handler is one of them. -/
theorem shared_identity {x : World} (hn : (Broker.start (Broker.defaultStages p) x).IsNew)
    (h : Runs Op.OfBroker (Broker.start (Broker.defaultStages p) x) s) : ∃ owner : Nat → Option (Nat × Nat),
    (∀ (t : Nat) (w : Worker) (i : Nat) (d : Dealing), s.tasks[t]? = some (.worker w) →
      (s.world.dealings t)[i]? = some d → d.attempts = [] ∨ ∃ id new spans,
        d.Shares x.ids.draws w.handler (Broker.OpensSpans w.stages) id new spans ∧
          ∀ n ∈ new.toList ++ spans, owner n = some (t, i)) ∧
    ∀ e ∈ s.world.journal, ∀ a, e.event.attempt? = some a → ∃ (w : Worker) (i : Nat) (d : Dealing),
      s.tasks[e.task]? = some (.worker w) ∧ (s.world.dealings e.task)[i]? = some d ∧ a ∈ d.attempts := by
  have hs := (Kept.start hn).runs h
  obtain ⟨owner, hledger⟩ := hs.ledger
  refine ⟨owner, fun t w i d hw hd => (hledger.workers hw).told hd, fun e he a ha => ?_⟩
  have hmem : a ∈ (s.world.history e.task).filterMap Event.attempt? := by
    refine List.mem_filterMap.mpr ⟨e.event, List.mem_reverse.mpr (List.mem_map_of_mem ?_), ha⟩
    exact List.mem_filter.mpr ⟨he, beq_self_eq_true _⟩
  by_cases hw : ∃ w, s.tasks[e.task]? = some (.worker w)
  · obtain ⟨w, hw⟩ := hw
    rw [hs.listed.calls] at hmem
    obtain ⟨d, hd, hmem⟩ := List.mem_flatMap.mp hmem
    obtain ⟨i, hi⟩ := List.mem_iff_getElem?.mp hd
    exact ⟨w, i, d, hw, hi, hmem⟩
  · rw [hs.listed.workers fun w h => hw ⟨w, h⟩] at hmem
    cases hmem

/-- A broker whose identifiers are numbered as they are drawn. -/
def numbered : State :=
  Broker.start (Broker.defaultStages .quick)
    (.start ⟨fun n => { Uuid.mask with head := ⟨n % Nat.pow 16 12, Nat.mod_lt _ (by decide)⟩ }, 0⟩ (some 4))

def flaky : Binding where
  role := .command
  type := Broker.flag
  name := "flaky"
  play n _ _ := .finish (if n = 0 then .failed (.custom ⟨"busy", .internal, "BUSY", true⟩ []) else .ok)

/-- A message with a trace parent and baggage and no identifier comes to a handler that fails, and comes to it again
    when the wait for the next attempt is over. -/
def retrying : List Op :=
  [Op.addHandlers .command { token := 0 } [flaky], .token, .run { token := 0 }] ++
    List.replicate 3 (Op.turn 0 .shutdown) ++
  [Op.publish "flag" [⟨some "a", [1], Dict.ofList [(traceKey, (TraceParent.root .mask .mask).render),
    (baggageKey "k", "v")]⟩]] ++ List.replicate 7 (Op.turn 2 .shutdown) ++ List.replicate 10 (Op.turn 1 .shutdown) ++
  [.tick 10] ++ List.replicate 3 (Op.turn 1 .shutdown)

def retriedOnce : State := (numbered.replay retrying).getD numbered

theorem shared_identity_of_two : numbered.IsNew ∧ Runs Op.OfBroker numbered retriedOnce ∧
    ∃ d id, (retriedOnce.world.dealings 1)[0]? = some d ∧ d.attempts.length = 2 ∧ id ≠ "" ∧
      (d.attempts.map HandlerCall.span?).Nodup ∧ ∀ a ∈ d.attempts,
      a.context.correlationId = some id ∧ a.context.baggage.get? "k" = some "v" ∧
        ∃ span, a.context.trace = some { TraceParent.root .mask .mask with spanId := span } := by
  have hn : numbered.IsNew := ⟨rfl, rfl, rfl, rfl, rfl, rfl⟩
  have h : Runs Op.OfBroker numbered retriedOnce := by
    have hsome : (numbered.replay retrying).isSome = true := by decide +kernel
    obtain ⟨s, hs⟩ := Option.isSome_iff_exists.mp hsome
    have hretried : retriedOnce = s := by rw [retriedOnce, hs, Option.getD_some]
    exact Runs.refl.replay (by decide) (hretried ▸ hs)
  have hd : ∃ d, retriedOnce.world.dealings 1 = [d] ∧
      (d.attempts.length, decide (d.attempts.map HandlerCall.span?).Nodup, d.message.metadata) =
        (2, true, Dict.ofList [(traceKey, (TraceParent.root .mask .mask).render), (baggageKey "k", "v")]) :=
    List.map_eq_singleton_iff.mp (by decide +kernel)
  have hcall : (retriedOnce.world.journal.any fun e => e.task == 1 && e.event.attempt?.isSome) = true := by
    decide +kernel
  obtain ⟨d, hds, hd⟩ := hd
  rw [Prod.mk.injEq, Prod.mk.injEq, decide_eq_true_iff] at hd
  obtain ⟨hlength, hspans, hmetadata⟩ := hd
  obtain ⟨e, he, hcall⟩ := List.any_eq_true.mp hcall
  rw [Bool.and_eq_true, beq_iff_eq] at hcall
  obtain ⟨a, ha⟩ := Option.isSome_iff_exists.mp hcall.2
  obtain ⟨owner, htold, hlisted⟩ := shared_identity hn h
  obtain ⟨w, -, -, hw, -⟩ := hlisted e he a ha
  rw [hcall.1] at hw
  obtain ha | ⟨id, new, spans, hs, -⟩ := htold 1 w 0 d hw (by rw [hds]; rfl)
  · rw [ha] at hlength
    cases hlength
  · refine ⟨hn, h, d, id, by rw [hds]; rfl, hlength, hs.nonempty, hspans, fun a ha => ?_⟩
    have hsees := hs.sees a ha
    refine ⟨hsees.correlation, (hsees.baggage "k").trans ?_, hsees.trace _ ?_⟩
    · rw [hmetadata]
      decide +kernel
    · have htrace : (Dict.ofList [(traceKey, (TraceParent.root .mask .mask).render), (baggageKey "k", "v")]).get?
          traceKey = some (TraceParent.root .mask .mask).render := by decide +kernel
      rw [Message.parent?, hmetadata, htrace, Option.bind_some, TraceParent.parse_render]
      rfl

end State
end Relay
