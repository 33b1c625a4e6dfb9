import Relay.Proofs.Router.Supervisor

/-! Handlers that keep to themselves: they wait, they end in one way or another, but they neither publish
    nor cancel. Whatever such a handler does, a worker that calls it leaves no trace outside of its own route
    and its own subscription (`Worker.Moves.spares`). -/

namespace Relay

/-- A program that neither publishes nor cancels. -/
def Program.Still : Program → Prop
  | finish _ => True
  | sleep _ next | awaitCancel next => next.Still
  | cancel _ | publish _ _ _ | send _ _ => False

def Handler.Still (h : Handler) : Prop := ∀ n c i p, h.play n c i = .started p → p.Still

theorem Binding.still {b : Binding} (h : ∀ n c v, (b.play n c v).Still) : b.handler.Still := by
  intro n c i p hp
  cases i with
  | message m => cases hp
  | value v =>
    cases hp
    exact h n c v

/-! ### Calls -/

/-- Where a call of such a handler can stand, if `ok` holds of the filters on its way. -/
def Phase.Tame (ok : Filter → Prop) (frames : List Frame) : Phase → Prop
  | entering rest _ _ => ∀ f, .filter f ∈ rest → ok f
  | acting _ p _ | asleep _ _ p _ | awaiting _ p _ => p.Still
  | sending .. => False
  | backoff .. => ∃ policy n ctx m rest outer, frames = .retry policy n ctx m rest :: outer
  | leaving _ => True

/-- A call of a handler that keeps to itself, if `ok` holds of the filters on its way. -/
structure Call.Tame (ok : Filter → Prop) (c : Call) : Prop where
  handler : ∀ h, c.handler = some h → h.Still
  frames : ∀ {policy : RetryPolicy} {n : Nat} {ctx : Context} {m : Message} {rest : List Stage},
    .retry policy n ctx m rest ∈ c.frames → ∀ f, .filter f ∈ rest → ok f
  phase : c.phase.Tame ok c.frames

theorem Context.startSpan_draws (c : Context) (ids : Supply) : (c.startSpan ids).2.draws = ids.draws := by
  unfold startSpan
  split <;> rfl

namespace World

/-- What nothing but an operation on the exchange itself ever changes. -/
structure Firm (x x' : World) : Prop where
  transport : x'.transport = x.transport
  aside : x'.aside = x.aside
  draws : x'.ids.draws = x.ids.draws
  closed : x'.exchange.closed = x.exchange.closed

theorem Firm.refl (x : World) : x.Firm x := ⟨rfl, rfl, rfl, rfl⟩

/-- What a call on route `r` does to the world, if its handler keeps to itself. -/
structure Inward (r : Nat) (x x' : World) : Prop where
  clock : x'.clock = x.clock
  tokens : x'.tokens = x.tokens
  exchange : x'.exchange = x.exchange
  calls : ∀ h, h ≠ r → x'.calls[h]? = x.calls[h]?
  firm : x.Firm x'

theorem Inward.refl (r : Nat) (x : World) : x.Inward r x := ⟨rfl, rfl, rfl, fun _ _ => rfl, .refl x⟩

end World

namespace Call
variable {ok : Filter → Prop} {task : Nat} {w w' : World} {c c' : Call}

theorem start_tame {route : Nat} {stages : List Stage} {h : Handler} {ctx : Context} {m : Message} (hh : h.Still)
    (hs : ∀ f, .filter f ∈ stages → ok f) : (Call.start route stages h ctx m).Tame ok where
  handler _ he := by
    cases he
    exact hh
  frames h := nomatch h
  phase := hs

namespace Tame

theorem mono {ok' : Filter → Prop} (h : c.Tame ok) (hok : ∀ f, ok f → ok' f) : c.Tame ok' where
  handler := h.handler
  frames hm f hf := hok f (h.frames hm f hf)
  phase := by
    have hp := h.phase
    unfold Phase.Tame at hp ⊢
    split at hp
    · exact fun f hf => hok f (hp f hf)
    all_goals exact hp

theorem goto {p : Phase} (h : c.Tame ok) (hp : p.Tame ok c.frames) : (c.goto p).Tame ok := ⟨h.handler, h.frames, hp⟩

theorem pop {f : Frame} {outer : List Frame} {o : Outcome} (h : c.Tame ok) (hf : c.frames = f :: outer) :
    (c.pop outer o).Tame ok :=
  ⟨h.handler, fun hm => h.frames (hf ▸ List.mem_cons_of_mem _ hm), trivial⟩

theorem entering {rest : List Stage} {ctx : Context} {m : Message} (h : c.Tame ok)
    (hp : c.phase = .entering rest ctx m) : ∀ f, .filter f ∈ rest → ok f := by
  have := h.phase
  rwa [hp] at this

theorem push {g : Stage} {f : Frame} {rest : List Stage} {ctx ctx' : Context} {m m' : Message} (h : c.Tame ok)
    (hp : c.phase = .entering (g :: rest) ctx m)
    (hf : ∀ policy n ctx m rest', f = .retry policy n ctx m rest' → rest' = rest) :
    (c.push f rest ctx' m').Tame ok where
  handler := h.handler
  frames hm g hg := by
    rcases List.mem_cons.mp hm with he | hm
    · rw [hf _ _ _ _ _ he.symm] at hg
      exact h.entering hp g (List.mem_cons_of_mem _ hg)
    · exact h.frames hm g hg
  phase g hg := h.entering hp g (List.mem_cons_of_mem _ hg)

theorem acting {n : Nat} {p : Program} {ctx : Context} (h : c.Tame ok) (hp : c.phase = .acting n p ctx) : p.Still := by
  have := h.phase
  rwa [hp] at this

theorem not_sending {port : Port} {pub : Nat} {wrap : TransportError → Error} {n : Nat} {p : Program} {ctx : Context}
    (h : c.Tame ok) : c.phase ≠ .sending port pub wrap n p ctx := fun hp => by
  have := h.phase
  rw [hp] at this
  exact this

theorem backoff {t : Timer} {e : Error} (h : c.Tame ok) (hp : c.phase = .backoff t e) :
    ∃ policy n ctx m rest outer, c.frames = .retry policy n ctx m rest :: outer := by
  have := h.phase
  rwa [hp] at this

/-- A step of such a call does nothing that others could notice. -/
theorem moves (h : c.Tame ok) (hm : c.Moves task w w' c') : c'.Tame ok ∧ w.Inward c.route w' := by
  have arrived : w.Inward c.route (c.arrived task w) := ⟨rfl, rfl, rfl, fun i hi => by
    exact List.getElem?_modify_ne (· + 1) w.calls (Ne.symm hi), rfl, rfl, rfl, rfl⟩
  -- The clock, the tokens, the exchange and the calls are those of before, and so is what is firm.
  have same : ∀ {x : World}, x.clock = w.clock → x.tokens = w.tokens → x.exchange = w.exchange →
      x.calls = w.calls → x.transport = w.transport → x.aside = w.aside → x.ids.draws = w.ids.draws →
      w.Inward c.route x := fun hc ht he hn hr ha hd => ⟨hc, ht, he, fun _ _ => hn ▸ rfl, hr, ha, hd, he ▸ rfl⟩
  cases hm with
  | stays => exact ⟨h, .refl _ _⟩
  | unhandled _ _ | undecoded _ _ _ _ | brokeOff _ _ => exact ⟨h.goto trivial, .refl _ _⟩
  | returned _ _ _ | answered _ _ => exact ⟨h.goto trivial, same rfl rfl rfl rfl rfl rfl rfl⟩
  | refused _ _ _ _ => exact ⟨h.goto trivial, arrived⟩
  | called _ hh _ hplay =>
    exact ⟨h.goto (h.handler _ hh _ _ _ _ hplay), arrived.clock, arrived.tokens, arrived.exchange, arrived.calls,
      rfl, rfl, rfl, rfl⟩
  | guarded hp | marked hp _ | unmarked hp _ | restored hp | passed hp _ =>
    exact ⟨h.push hp (by simp), same rfl rfl rfl rfl rfl rfl rfl⟩
  | dispatched hp =>
    exact ⟨h.push hp (by simp), same rfl rfl rfl rfl rfl rfl (Context.startSpan_draws _ _)⟩
  | tried hp =>
    refine ⟨h.push hp fun policy n ctx m rest he => ?_, same rfl rfl rfl rfl rfl rfl rfl⟩
    cases he
    rfl
  | slept hp =>
    have hs := h.acting hp
    exact ⟨h.goto hs, same rfl rfl rfl rfl rfl rfl rfl⟩
  | awaited hp =>
    have hs := h.acting hp
    exact ⟨h.goto hs, .refl _ _⟩
  | woke hp _ | freed hp _ =>
    have hs := h.phase
    rw [hp] at hs
    exact ⟨h.goto hs, .refl _ _⟩
  | cancelled hp | unpublished hp _ | published hp _ | unwritten hp _ | unsent hp _ _ | sent hp _ _ =>
    exact (h.acting hp).elim
  | delivered hp _ | undelivered hp _ | delivers hp _ => exact absurd hp h.not_sending
  | aborted _ hf _ => exact ⟨h.pop hf, same rfl rfl rfl rfl rfl rfl rfl⟩
  | retried hp hf _ _ =>
    refine ⟨⟨h.handler, fun hm => ?_, ?_⟩, same rfl rfl rfl rfl rfl rfl rfl⟩
    · rcases List.mem_cons.mp hm with he | hm
      · cases he
        exact h.frames (hf ▸ List.mem_cons_self)
      · exact h.frames (hf ▸ List.mem_cons_of_mem _ hm)
    · exact h.frames (hf ▸ List.mem_cons_self)
  | strayed hp hf =>
    obtain ⟨_, _, _, _, _, _, he⟩ := h.backoff hp
    exact absurd he (hf _ _ _ _ _ _)
  | recovered _ hf | unwound _ hf _ | filtered _ _ hf | unretryable _ hf _ | exhausted _ hf _ _ | propagated _ hf _
  | swallowed _ hf _ | left _ hf _ _ _ => exact ⟨h.pop hf, same rfl rfl rfl rfl rfl rfl rfl⟩
  | backsOff _ hf _ _ => exact ⟨h.goto ⟨_, _, _, _, _, _, hf⟩, same rfl rfl rfl rfl rfl rfl rfl⟩

/-- Such a call is counted where it comes to its handler. -/
theorem counts (h : c.Tame ok) (hm : c.Moves task w w' c') (hp : ∀ ctx m, c.phase ≠ .entering [] ctx m) :
    w'.calls = w.calls := by
  cases hm with
  | unhandled hp' _ | undecoded hp' _ _ _ | refused hp' _ _ _ | called hp' _ _ _ => exact absurd hp' (hp _ _)
  | cancelled hp | unpublished hp _ | published hp _ | unwritten hp _ | unsent hp _ _ | sent hp _ _ =>
    exact (h.acting hp).elim
  | delivered hp _ | undelivered hp _ | delivers hp _ => exact absurd hp h.not_sending
  | stays | guarded _ | marked _ _ | unmarked _ _ | restored _ | tried _ | passed _ _ | answered _ _ | dispatched _
  | returned _ _ _ | brokeOff _ _ | slept _ | awaited _ | woke _ _ | freed _ _ | aborted _ _ _ | retried _ _ _ _
  | strayed _ _ | recovered _ _ | unwound _ _ _ | filtered _ _ _ | unretryable _ _ _ | backsOff _ _ _ _
  | exhausted _ _ _ _ | propagated _ _ _ | swallowed _ _ _ | left _ _ _ _ _ => rfl

end Tame
end Call

/-! ### Workers -/

/-- A worker whose handler keeps to itself, if `ok` holds of the filters among its stages. -/
structure Worker.Tame (ok : Filter → Prop) (w : Worker) : Prop where
  handler : w.handler.Still
  stages : ∀ f, .filter f ∈ w.stages → ok f
  call : ∀ {m : Message} {c : Call}, w.occupation = .busy m c →
    c.Tame ok ∧ c.handler = some w.handler ∧ c.route = w.route

namespace World

/-- What a step leaves alone of what the worker of route `h` depends on, which reads subscription `i`. -/
structure Spares (h i : Nat) (x x' : World) : Prop where
  clock : x'.clock = x.clock
  tokens : x'.tokens = x.tokens
  calls : x'.calls[h]? = x.calls[h]?
  publications : x'.exchange.publications = x.exchange.publications
  subscription : x'.exchange.subscriptions[i]? = x.exchange.subscriptions[i]?

variable {h i : Nat} {x x' : World}

theorem Spares.of_eq (hc : x'.clock = x.clock) (ht : x'.tokens = x.tokens) (hn : x'.calls = x.calls)
    (he : x'.exchange = x.exchange) : x.Spares h i x' :=
  ⟨hc, ht, hn ▸ rfl, he ▸ rfl, he ▸ rfl⟩

end World

namespace Worker
variable {ok : Filter → Prop} {t h i : Nat} {x x' : World} {w w' : Worker}

theorem Tame.moves (ht : w.Tame ok) (hm : w.Moves t x x' w') : w'.Tame ok ∧ x.Firm x' := by
  have idle : ∀ {w' : Worker}, w'.handler = w.handler → w'.stages = w.stages →
      (∀ m c, w'.occupation ≠ .busy m c) → w'.Tame ok :=
    fun hh hs ho => ⟨hh ▸ ht.handler, hs ▸ ht.stages, fun he => absurd he (ho _ _)⟩
  cases hm with
  | stays => exact ⟨ht, .refl x⟩
  | takes _ _ _ _ =>
    refine ⟨⟨ht.handler, ht.stages, fun he => ?_⟩, rfl, rfl, rfl, rfl⟩
    cases he
    exact ⟨Call.start_tame ht.handler ht.stages, rfl, rfl⟩
  | works ho _ hc =>
    obtain ⟨htame, hhandler, hroute⟩ := ht.call ho
    refine ⟨⟨ht.handler, ht.stages, fun he => ?_⟩, (htame.moves hc).2.firm⟩
    cases he
    exact ⟨(htame.moves hc).1, hc.same.1.trans hhandler, hc.same.2.trans hroute⟩
  | stops _ _ | succeeds _ _ | fails _ _ _ | breaksOff _ _ => exact ⟨idle rfl rfl (by simp), rfl, rfl, rfl, rfl⟩

/-- A step of another worker makes no difference to the worker of route `h`. -/
theorem Moves.spares (hm : w.Moves t x x' w') (ht : w.Tame ok) (hr : w.route ≠ h) (hi : w.subscription ≠ i) :
    x.Spares h i x' := by
  have elsewhere : ∀ f : Subscription → Subscription,
      (x.exchange.updateSubscription w.subscription f).subscriptions[i]? = x.exchange.subscriptions[i]? := fun f => by
    exact List.getElem?_modify_ne f x.exchange.subscriptions hi
  cases hm with
  | stays | succeeds _ _ | fails _ _ _ => exact .of_eq rfl rfl rfl rfl
  | takes _ _ _ _ | stops _ _ | breaksOff _ _ => exact ⟨rfl, rfl, rfl, rfl, elsewhere _⟩
  | works ho _ hc =>
    obtain ⟨htame, -, hroute⟩ := ht.call ho
    have hin := (htame.moves hc).2
    exact ⟨hin.clock, hin.tokens, hin.calls h (fun he => hr (hroute.symm.trans he.symm)), hin.exchange ▸ rfl,
      hin.exchange ▸ rfl⟩

end Worker
end Relay
