import Relay.Proofs.Exchange.Closing
import Relay.Proofs.Exchange.Pruning

/-! The registry of an exchange. While it is open it lists every stream that has been opened and not been dropped
    under its topic, once, in the order of opening, it counts just these, and it lists no topic without any
    subscription. The streams that have been dropped go from the lists when a publication has missed them, at a time
    that nobody can tell: the exchange goes on as the one would of which they have not gone. -/

namespace Relay

/-- A subscription as far as its reader can tell: all but who waits for its places. -/
def Subscription.shown (s : Subscription) : Subscription := { s with waiting := [], granted := [] }

namespace Subscription
variable {s t : Subscription}

@[simp] theorem shown_withdraw (s : Subscription) (p : Nat) : (s.withdraw p).shown = s.shown := by
  unfold withdraw grant
  split
  · split <;> rfl
  · rfl

theorem shown_drop (h : s.shown = t.shown) : s.drop.shown = t.drop.shown :=
  congrArg (fun u : Subscription => { u with queue := [], dropped := true }) h

end Subscription

namespace Exchange
variable {e e' : Exchange} {topic : String} {s : Nat}

/-! ### What readers can tell of a closed exchange -/

/-- Two closed exchanges whose subscriptions are the same for their readers, and whose lists are the same but for
    streams whose readers have gone. -/
structure Over (e e' : Exchange) : Prop where
  closed : e.closed = true
  closed' : e'.closed = true
  capacity : e'.capacity = e.capacity
  clearing : e'.clearing = e.clearing
  admitted : e'.admitted = e.admitted
  shown : e'.subscriptions.map (·.shown) = e.subscriptions.map (·.shown)
  listed : ∀ topic, e.Agree (e.listed topic) (e'.listed topic)

theorem isGone_of_shown (h : e'.subscriptions.map (·.shown) = e.subscriptions.map (·.shown)) :
    e'.isGone = e.isGone := by
  funext i
  have hi : (e'.subscriptions[i]?).map (·.shown) = (e.subscriptions[i]?).map (·.shown) := by
    rw [← List.getElem?_map, ← List.getElem?_map, h]
  have hany : ∀ e : Exchange, e.isGone i = ((e.subscriptions[i]?).map (·.shown)).any (·.dropped) := fun e => by
    rw [Option.any_map]
    rfl
  rw [hany, hany, hi]

theorem Over.symm (h : e.Over e') : e'.Over e where
  closed := h.closed'
  closed' := h.closed
  capacity := h.capacity.symm
  clearing := h.clearing.symm
  admitted := h.admitted.symm
  shown := h.shown.symm
  listed topic := by
    rw [Agree, isGone_of_shown h.shown]
    exact (h.listed topic).symm

theorem shown_updateSubscription {f : Subscription → Subscription} (hf : ∀ s, (f s).shown = s.shown) :
    (e.updateSubscription s f).subscriptions.map (·.shown) = e.subscriptions.map (·.shown) := by
  refine List.ext_getElem? fun i => ?_
  rw [List.getElem?_map, List.getElem?_map]
  cases hs : e.subscriptions[i]? with
  | none => simp [updateSubscription, List.getElem?_modify, hs]
  | some sub =>
    rw [subscription?_update hs]
    split <;> simp [hf]

/-- A publication that finds an exchange closed only gives up its place in a queue. -/
theorem shown_advance (hc : e.closed = true) (p : Nat) :
    (e.advance p).subscriptions.map (·.shown) = e.subscriptions.map (·.shown) := by
  have ha := advance_cases e p
  generalize e.advance p = e' at ha
  cases ha with
  | stays | refused _ _ _ | finishes _ _ _ | proceeds _ _ => rfl
  | cutShort _ _ _ => exact shown_updateSubscription fun s => s.shown_withdraw p
  | unheard _ _ hopen _ | begins _ _ hopen _ | skips _ _ hopen _ | misses _ _ hopen _ _
  | accepted _ _ hopen _ _ _ | waits _ _ hopen _ _ _ _ _ => exact nomatch hc.symm.trans hopen

theorem shown_drop (h : e'.subscriptions.map (·.shown) = e.subscriptions.map (·.shown)) (s : Nat) :
    (e'.drop s).subscriptions.map (·.shown) = (e.drop s).subscriptions.map (·.shown) := by
  refine List.ext_getElem? fun i => ?_
  have hi : (e'.subscriptions[i]?).map (·.shown) = (e.subscriptions[i]?).map (·.shown) := by
    rw [← List.getElem?_map, ← List.getElem?_map, h]
  simp only [Exchange.drop, updateSubscription, List.getElem?_map, List.getElem?_modify]
  cases hs : e.subscriptions[i]? <;> cases hs' : e'.subscriptions[i]? <;> simp [hs, hs'] at hi ⊢
  split
  · exact Subscription.shown_drop hi
  · exact hi

/-! ### A call that is registered in both -/

/-- Where the same calls have been admitted they are registered in the same way. -/
theorem register_both (hcap : e'.capacity = e.capacity) (hadmitted : e'.admitted = e.admitted) (k : Nat) :
    (∃ admitted, e.register k = { e with admitted } ∧ e'.register k = { e' with admitted }) ∨
      ∃ a, e.register k = e.registered k a ∧ e'.register k = e'.registered k a := by
  have hsize : e'.isOversized = e.isOversized := by rw [isOversized, isOversized, hcap]
  cases hover : e.isOversized with
  | true =>
    refine .inl ⟨_, Hub.register_of_isOversized hover k, ?_⟩
    rw [Hub.register_of_isOversized (hsize.trans hover), hadmitted]
  | false =>
    cases ha : e.admitted[k]? with
    | none =>
      refine .inl ⟨e.admitted, Hub.register_of_none ha, ?_⟩
      rw [Hub.register_of_none (hadmitted ▸ ha), ← hadmitted]
    | some a =>
      exact .inr ⟨a, Hub.register_of_some ha hover, Hub.register_of_some (hadmitted ▸ ha) (hsize.trans hover)⟩

theorem isGone_registered {k : Nat} {a : Admission} {i : Nat} (hi : e.isGone i = true) :
    (e.registered k a).isGone i = true := by
  obtain ⟨s, hs, hd⟩ := Option.any_eq_true _ _ |>.mp hi
  rw [isGone, registered, List.getElem?_append_left (List.getElem?_eq_some_iff.mp hs).1, hs]
  exact hd

theorem agree_registered (hlen : e'.subscriptions.length = e.subscriptions.length)
    (hl : ∀ topic, e.Agree (e.listed topic) (e'.listed topic)) (k : Nat) (a : Admission) (topic : String) :
    (e.registered k a).Agree ((e.registered k a).listed topic) ((e'.registered k a).listed topic) := by
  have hg : ∀ i, e.isGone i = true → (e.registered k a).isGone i = true := fun _ => isGone_registered
  have hlisted : ∀ e : Exchange, (e.registered k a).listed topic =
      if topic = a.topic then e.listed a.topic ++ [e.subscriptions.length] else e.listed topic := fun e => by
    simp only [listed, registered, Registry.lookup_enlist]
    split <;> rfl
  rw [hlisted, hlisted, hlen]
  split
  · exact ((hl a.topic).mono hg).append _
  · exact (hl topic).mono hg

end Exchange

namespace Hub
open Exchange
variable {h h' : Hub} {o : Op} {ops ops' block : List Op} {capacity : Option Nat} {p : Nat} {topic : String}

/-! ### Going on alike -/

/-- What readers and counters can tell is the same. -/
structure LooksLike (h h' : Hub) : Prop where
  tokens : h'.tokens = h.tokens
  closed : h'.exchange.closed = h.exchange.closed
  /-- The queues, with all that was ever put into them and read from them. -/
  shown : h'.exchange.subscriptions.map (·.shown) = h.exchange.subscriptions.map (·.shown)
  /-- Until the exchange is closed, also who waits for a place and who has been given one. -/
  places : h.exchange.closed = false → h'.exchange.subscriptions = h.exchange.subscriptions
  poll : ∀ i, (h'.exchange.poll h'.tokens i).1 = (h.exchange.poll h.tokens i).1
  count : ∀ topic, h'.exchange.count topic = h.exchange.count topic
  /-- What has returned in both until then has returned the same. -/
  returned : h.exchange.closed = false → ∀ p r r', h.exchange.returned? p = some r →
    h'.exchange.returned? p = some r' → r' = r

/-- One operation, and what is done in its place: the turn of a publication may become another number of turns. -/
inductive Op.InTurns : Op → List Op → Prop where
  | once (o : Op) : InTurns o [o]
  | turns (p n : Nat) : InTurns (.advance p) (List.replicate n (.advance p))

/-- Two runs of the same operations but for the number of turns that publications have. After each operation the two
    look alike. -/
inductive InStep : Hub → List Op → Hub → List Op → Prop where
  | rest {h h' : Hub} : h.LooksLike h' → InStep h [] h' []
  | step {h h' : Hub} {o : Op} {ops block ops' : List Op} : h.LooksLike h' → o.InTurns block →
      InStep (h.step o) ops (h'.run block) ops' → InStep h (o :: ops) h' (block ++ ops')

/-- Whatever may come of the one may come of the other, with nobody to tell the difference at any time. -/
def GoesAlike (h h' : Hub) : Prop :=
  (∀ ops, ∃ ops', InStep h ops h' ops') ∧ ∀ ops', ∃ ops, InStep h' ops' h ops

/-- Two hubs that differ by what nobody can tell: until they are closed by listed streams whose readers have gone, and
    then by who waited for a place. -/
structure Kin (h h' : Hub) : Prop where
  tokens : h'.tokens = h.tokens
  listed : h.exchange.WellListed
  listed' : h'.exchange.WellListed
  exchange : h.exchange.Abreast h'.exchange ∨ h.exchange.Over h'.exchange

theorem Kin.symm (hk : h.Kin h') : h'.Kin h where
  tokens := hk.tokens.symm
  listed := hk.listed'
  listed' := hk.listed
  exchange := by
    rcases hk.exchange with ha | ho
    · exact .inl ha.symm
    · exact .inr ho.symm

theorem Kin.count (hk : h.Kin h') (topic : String) : h'.exchange.count topic = h.exchange.count topic := by
  rw [count_eq, count_eq, hk.listed.sound.filter_isDropped, hk.listed'.sound.filter_isDropped]
  rcases hk.exchange with ha | ho
  · rw [isGone_congr ha.subscriptions]
    exact congrArg List.length (ha.listed topic).symm
  · rw [isGone_of_shown ho.shown]
    exact congrArg List.length (ho.listed topic).symm

theorem Kin.looksLike (hk : h.Kin h') : h.LooksLike h' := by
  rcases hk.exchange with ha | ho
  · refine ⟨hk.tokens, ha.opened'.trans ha.opened.symm, by rw [ha.subscriptions], fun _ => ha.subscriptions, ?_,
      hk.count, ?_⟩
    · intro i
      unfold poll hasEnded
      rw [ha.subscriptions, ha.opened, ha.opened', hk.tokens]
      repeat' split
      all_goals rfl
    · intro _ p r r' hr hr'
      obtain ⟨q, hq⟩ : ∃ q, h.exchange.publications[p]? = some q := by
        cases hq : h.exchange.publications[p]? with
        | none => simp [returned?, hq] at hr
        | some q => exact ⟨q, rfl⟩
      obtain ⟨q', hq', hpeers⟩ := ha.publication hq
      have hp := (returned?_eq hq).mp hr
      have hp' := (returned?_eq hq').mp hr'
      cases hpeers.pace with
      | ended hp₁ hp₁' =>
        cases hp.symm.trans hp₁
        cases hp'.symm.trans hp₁'
        rfl
      | fresh hp₁ _ | sending hp₁ _ _ _ => exact nomatch hp.symm.trans hp₁
      | lags hs _ =>
        obtain ⟨_, _, hp₁, -⟩ := hs
        exact nomatch hp.symm.trans hp₁
      | leads _ hs =>
        obtain ⟨_, _, hp₁, -⟩ := hs
        exact nomatch hp'.symm.trans hp₁
  · refine ⟨hk.tokens, ho.closed'.trans ho.closed.symm, ho.shown, ?_, ?_, hk.count, ?_⟩
    · intro hopen
      exact nomatch ho.closed.symm.trans hopen
    · intro i
      rw [poll_of_closed ho.closed, poll_of_closed ho.closed']
    · intro hopen
      exact nomatch ho.closed.symm.trans hopen

/-! ### One operation on both -/

theorem step_tokens (ht : h'.tokens = h.tokens) (o : Op) : (h'.step o).tokens = (h.step o).tokens := by
  cases o with
  | token | derive t | cancel t => simp [step, ht]
  | register k | publish topic batch | advance p | poll s | drop s | close | clear => exact ht
  | subscribe t topic =>
    rw [tokens_subscribe, tokens_subscribe]
    exact ht

theorem run_turns (h : Hub) (p n : Nat) : h.run (List.replicate n (.advance p)) =
    { h with exchange := (Exchange.advance · p)^[n] h.exchange } := by
  induction n generalizing h with
  | zero => rfl
  | succ n ih =>
    rw [List.replicate_succ, Function.iterate_succ_apply]
    exact ih (h.step (.advance p))

theorem abreast_subscribe (ha : h.exchange.Abreast h'.exchange) (t : Token) (topic : String) :
    (h.step (.subscribe t topic)).exchange.Abreast (h'.step (.subscribe t topic)).exchange := by
  simp only [step, letIn, ha.opened, ha.opened', Bool.false_eq_true, if_false]
  exact ⟨ha.capacity, rfl, rfl, ha.clearing, by simp only [ha.admitted], ha.subscriptions, ha.listed,
    ha.publications.imp fun _ _ hpeers => hpeers.mono fun _ hi => hi⟩

theorem abreast_register (ha : h.exchange.Abreast h'.exchange) (k : Nat) :
    (h.step (.register k)).exchange.Abreast (h'.step (.register k)).exchange := by
  show (h.exchange.register k).Abreast (h'.exchange.register k)
  have hlen : h'.exchange.subscriptions.length = h.exchange.subscriptions.length := by rw [ha.subscriptions]
  rcases register_both ha.capacity ha.admitted k with ⟨admitted, he, he'⟩ | ⟨a, he, he'⟩ <;> rw [he, he']
  · exact ⟨ha.capacity, ha.opened, ha.opened', ha.clearing, rfl, ha.subscriptions, ha.listed,
      ha.publications.imp fun _ _ hpeers => hpeers.mono fun _ hi => hi⟩
  · exact ⟨ha.capacity, ha.opened, ha.opened', ha.clearing, by simp only [registered, ha.admitted],
      by simp only [registered, ha.subscriptions], agree_registered hlen ha.listed k a,
      ha.publications.imp fun _ _ hpeers => hpeers.mono fun _ => isGone_registered⟩

theorem abreast_publish (ha : h.exchange.Abreast h'.exchange) (topic : String) (batch : List Message) :
    (h.step (.publish topic batch)).exchange.Abreast (h'.step (.publish topic batch)).exchange := by
  refine ⟨ha.capacity, ha.opened, ha.opened', ha.clearing, ha.admitted, ha.subscriptions, ha.listed, ?_⟩
  refine List.rel_append (ha.publications.imp fun _ _ hpeers => hpeers.mono fun _ hi => hi) ?_
  exact .cons (.refl _ _) .nil

theorem abreast_poll (ha : h.exchange.Abreast h'.exchange) (ht : h'.tokens = h.tokens) (s : Nat) :
    (h.step (.poll s)).exchange.Abreast (h'.step (.poll s)).exchange := by
  simp only [step]
  unfold poll hasEnded
  rw [ha.subscriptions, ha.opened, ha.opened', ht]
  split
  · exact ha
  · split
    · exact ha
    · split
      · exact ha
      · exact ha.updateSubscription fun _ hd => by simpa [Subscription.take] using hd

theorem abreast_close (ha : h.exchange.Abreast h'.exchange) : (h.step .close).exchange.Over (h'.step .close).exchange := by
  simp only [step, shut, ha.opened, ha.opened', Bool.false_eq_true, if_false]
  exact ⟨rfl, rfl, ha.capacity, rfl, ha.admitted, by simp only [ha.subscriptions], ha.listed⟩

theorem abreast_clear (ha : h.exchange.Abreast h'.exchange) :
    (h.step .clear).exchange.Abreast (h'.step .clear).exchange := by
  show h.exchange.clear.Abreast h'.exchange.clear
  unfold Exchange.clear
  rw [ha.clearing]
  split
  · exact ⟨ha.capacity, ha.opened, ha.opened', rfl, ha.admitted, ha.subscriptions, fun _ => .refl _ _,
      ha.publications.imp fun _ _ hpeers => hpeers.mono fun _ hi => hi⟩
  · exact ha

/-- A list stays as it is, or the streams whose readers have gone are taken out of it. -/
theorem listed_advance (hw : h.exchange.WellListed) (p : Nat) (topic : String) :
    (h.step (.advance p)).exchange.listed topic = h.exchange.listed topic ∨
      (h.step (.advance p)).exchange.listed topic = (h.exchange.listed topic).filter fun i => !h.exchange.isDropped i := by
  rcases (advance_cases h.exchange p).registry with hr | ⟨t, hr⟩
  · exact .inl (congrArg (fun r : Registry => (r.lookup topic).getD []) hr)
  · have hprune := listed_prune hw.neat t (fun s => !h.exchange.isDropped s) topic
    rw [← hr] at hprune
    by_cases ht : topic = t
    · rw [if_pos ht] at hprune
      exact .inr hprune
    · rw [if_neg ht] at hprune
      exact .inl hprune

/-- A turn takes nobody out of a list but those whose readers have gone. -/
theorem agree_advance (hw : h.exchange.WellListed) (p : Nat) (topic : String) :
    h.exchange.Agree ((h.step (.advance p)).exchange.listed topic) (h.exchange.listed topic) := by
  rcases listed_advance hw p topic with hl | hl <;> rw [hl]
  · exact .refl _ _
  · rw [hw.sound.filter_isDropped, Agree, List.filter_filter]
    simp

/-- On a closed exchange nothing but a reader that goes makes a difference to readers. -/
theorem over_step (ho : h.exchange.Over h'.exchange) (hw : h.exchange.WellListed) (hw' : h'.exchange.WellListed)
    (o : Op) : (h.step o).exchange.Over (h'.step o).exchange := by
  cases o with
  | token | derive t | cancel t => exact ho
  | publish topic batch =>
    exact ⟨ho.closed, ho.closed', ho.capacity, ho.clearing, ho.admitted, ho.shown, ho.listed⟩
  | subscribe t topic =>
    rw [step_subscribe_of_closed ho.closed, step_subscribe_of_closed ho.closed']
    exact ho
  | register k =>
    show (h.exchange.register k).Over (h'.exchange.register k)
    rcases register_both ho.capacity ho.admitted k with ⟨admitted, he, he'⟩ | ⟨a, he, he'⟩ <;> rw [he, he']
    · exact ⟨ho.closed, ho.closed', ho.capacity, ho.clearing, rfl, ho.shown, ho.listed⟩
    · have hlen : h'.exchange.subscriptions.length = h.exchange.subscriptions.length := by
        simpa using congrArg List.length ho.shown
      exact ⟨ho.closed, ho.closed', ho.capacity, ho.clearing, by simp only [registered, ho.admitted],
        by simp only [registered, List.map_append, ho.shown], agree_registered hlen ho.listed k a⟩
  | advance p =>
    have hshown := shown_advance ho.closed p
    have hshown' := shown_advance ho.closed' p
    have hcalls := (advance_cases h.exchange p).calls
    have hcalls' := (advance_cases h'.exchange p).calls
    refine ⟨step_closed ho.closed _, step_closed ho.closed' _, ?_, hcalls'.2.trans (ho.clearing.trans hcalls.2.symm),
      hcalls'.1.trans (ho.admitted.trans hcalls.1.symm), hshown'.trans (ho.shown.trans hshown.symm), fun topic => ?_⟩
    · exact (step_evolves h' _).capacity.trans (ho.capacity.trans (step_evolves h _).capacity.symm)
    · -- Each turn takes only such out of its lists as have gone in both.
      have hpruned := agree_advance hw' p topic
      rw [Agree, isGone_of_shown ho.shown] at hpruned
      refine ((agree_advance hw p topic).trans ((ho.listed topic).trans (Eq.symm hpruned))).mono fun i hi => ?_
      rwa [show (h.step (.advance p)).exchange.isGone = h.exchange.isGone from isGone_of_shown hshown]
  | poll s =>
    simp only [step, poll_of_closed ho.closed, poll_of_closed ho.closed']
    exact ho
  | drop s =>
    refine ⟨ho.closed, ho.closed', ho.capacity, ho.clearing, ho.admitted, shown_drop ho.shown s, fun topic => ?_⟩
    exact (ho.listed topic).mono (isGone_updateSubscription fun _ _ => rfl)
  | close =>
    simp only [step, shut_of_closed ho.closed, shut_of_closed ho.closed']
    exact ho
  | clear =>
    show h.exchange.clear.Over h'.exchange.clear
    unfold Exchange.clear
    rw [ho.clearing]
    split
    · exact ⟨ho.closed, ho.closed', ho.capacity, rfl, ho.admitted, ho.shown, fun _ => .refl _ _⟩
    · exact ho

theorem Kin.step (hk : h.Kin h') (o : Op) : ∃ block, o.InTurns block ∧ (h.step o).Kin (h'.run block) := by
  -- All but the turns of publications is done to both.
  have once : (h.step o).exchange.Abreast (h'.step o).exchange ∨ (h.step o).exchange.Over (h'.step o).exchange →
      ∃ block, o.InTurns block ∧ (h.step o).Kin (h'.run block) := fun hx =>
    ⟨[o], .once o, step_tokens hk.tokens o, wellListed_step hk.listed o, wellListed_step hk.listed' o, hx⟩
  rcases hk.exchange with ha | ho
  · cases o with
    | token | derive t | cancel t => exact once (.inl ha)
    | subscribe t topic => exact once (.inl (abreast_subscribe ha t topic))
    | register k => exact once (.inl (abreast_register ha k))
    | publish topic batch => exact once (.inl (abreast_publish ha topic batch))
    | poll s => exact once (.inl (abreast_poll ha hk.tokens s))
    | drop s => exact once (.inl (ha.updateSubscription fun _ _ => rfl))
    | close => exact once (.inr (abreast_close ha))
    | clear => exact once (.inl (abreast_clear ha))
    | advance p =>
      obtain ⟨n, hn⟩ := ha.advance hk.listed hk.listed' p
      refine ⟨_, .turns p n, ?_, wellListed_step hk.listed _, wellListed_run hk.listed' _, ?_⟩
      · rw [run_turns]
        exact hk.tokens
      · rw [run_turns]
        exact .inl hn
  · exact once (.inr (over_step ho hk.listed hk.listed' o))

theorem Kin.inStep (hk : h.Kin h') (ops : List Op) : ∃ ops', InStep h ops h' ops' := by
  induction ops generalizing h h' with
  | nil => exact ⟨[], .rest hk.looksLike⟩
  | cons o ops ih =>
    obtain ⟨block, hblock, hnext⟩ := hk.step o
    obtain ⟨ops', hrest⟩ := ih hnext
    exact ⟨block ++ ops', .step hk.looksLike hblock hrest⟩

theorem Kin.goesAlike (hk : h.Kin h') : h.GoesAlike h' := ⟨hk.inStep, hk.symm.inStep⟩

/-! ### The registry -/

/-- What the turn of a publication makes of an exchange, with the lists as they were before. -/
def unpruned (h : Hub) (p : Nat) : Hub :=
  { h.step (.advance p) with exchange := { (h.step (.advance p)).exchange with registry := h.exchange.registry } }

/-- What the turn of publication `p` does to the lists. -/
structure Prunes (h : Hub) (p : Nat) : Prop where
  kept : ∀ topic, ((h.step (.advance p)).exchange.listed topic).Sublist (h.exchange.listed topic)
  gone : ∀ topic, ∀ i ∈ h.exchange.listed topic, i ∉ (h.step (.advance p)).exchange.listed topic →
    h.exchange.isDropped i = true
  count : ∀ topic, (h.step (.advance p)).exchange.count topic = h.exchange.count topic
  /-- Nobody can tell, now or later, whether it has pruned a list. -/
  unseen : (h.unpruned p).GoesAlike (h.step (.advance p))

/-- What holds of an open exchange and its lists. -/
structure Registered (h : Hub) : Prop where
  topics : (h.exchange.registry.map Prod.fst).Nodup
  nonempty : ∀ entry ∈ h.exchange.registry, entry.2 ≠ []
  /-- A list holds subscriptions on its topic, each once and in the order in which they were made. -/
  own : ∀ topic, ∀ i ∈ h.exchange.listed topic, h.exchange.IsOn i topic
  ordered : ∀ topic, (h.exchange.listed topic).Pairwise (· < ·)
  /-- But for those whose readers have gone, they are the streams of the topic, and these are counted. -/
  streams : ∀ topic, ((h.exchange.listed topic).filter fun i => !h.exchange.isDropped i) = h.exchange.streams topic
  count : ∀ topic, h.exchange.count topic = (h.exchange.streams topic).length
  /-- Every call for a subscription is admitted, -/
  admits : ∀ (t : Token) (topic : String), h.step (.subscribe t topic) =
    { h with exchange := { h.exchange with admitted := h.exchange.admitted ++ [⟨t, topic⟩] } }
  /-- and a stream is there from when its call is registered until it is dropped, whatever else happens. -/
  opens : h.exchange.isOversized = false → ∀ (k : Nat) (a : Admission), h.exchange.admitted[k]? = some a →
    ∀ topic, (h.step (.register k)).exchange.streams topic =
      h.exchange.streams topic ++ if a.topic = topic then [h.exchange.subscriptions.length] else []
  oversized : h.exchange.isOversized = true → ∀ k, h.step (.register k) =
    { h with exchange := { h.exchange with admitted := h.exchange.admitted.eraseIdx k } }
  remains : ∀ o, (∀ k, o ≠ .register k) → ∀ topic,
    (h.step o).exchange.streams topic = (h.exchange.streams topic).filter fun i => o ≠ .drop i
  prunes : ∀ p, h.Prunes p

/-- After a turn all readers are there that were there before. -/
theorem isDropped_unpruned {i : Nat} (hi : h.exchange.IsOn i topic) (p : Nat) :
    (h.unpruned p).exchange.isDropped i = h.exchange.isDropped i := by
  obtain ⟨s, hs, -⟩ := hi
  obtain ⟨s', hs', hchange⟩ := changed hs (.advance p)
  have hs₁ : (h.unpruned p).exchange.subscriptions[i]? = some s' := hs'
  simp [isDropped, hs, hs₁, hchange.dropped (by simp)]

theorem kin_unpruned (hw : h.exchange.WellListed) (hopen : h.exchange.closed = false) (p : Nat) :
    (h.unpruned p).Kin (h.step (.advance p)) := by
  have hnext := wellListed_step hw (.advance p)
  have hevolves : h.exchange.Evolves (h.unpruned p).exchange :=
    have he := step_evolves h (.advance p)
    ⟨he.capacity, he.closed, he.subscription, he.publication⟩
  have hclosed : (h.step (.advance p)).exchange.closed = false := (closed_kept (o := .advance p) h nofun).trans hopen
  have hsound : (h.unpruned p).exchange.Sound :=
    ⟨fun entry hm i hi => (hw.sound.listed entry hm i hi).evolves hevolves,
      fun hq => ⟨(hnext.sound.addressed hq).targets, (hnext.sound.addressed hq).sending⟩, hnext.sound.ordered,
      hnext.sound.published⟩
  refine ⟨rfl, ⟨hsound, hw.neat⟩, hnext, .inl ⟨rfl, hclosed, hclosed, rfl, rfl, rfl, ?_, ?_⟩⟩
  · intro topic
    have hunpruned : (h.unpruned p).exchange.listed topic = h.exchange.listed topic := rfl
    rcases listed_advance hw p topic with hl | hl
    · rw [hl, hunpruned]
      exact .refl _ _
    · -- Those that were pruned had gone before the turn, and have gone since.
      rw [hl, hunpruned, Agree, List.filter_filter]
      refine List.filter_congr ?_
      intro i hi
      have hon := hw.sound.isOn_of_mem_listed hi
      rw [isGone_eq_isDropped (hon.evolves hevolves), isDropped_unpruned hon p, Bool.and_self]
  · exact List.forall₂_same.mpr fun q _ => .refl _ q

theorem prunes_of_wellListed (hw : h.exchange.WellListed) (hopen : h.exchange.closed = false) (p : Nat) :
    h.Prunes p := by
  have hkin := kin_unpruned hw hopen p
  refine ⟨?_, ?_, ?_, hkin.goesAlike⟩
  · intro topic
    rcases listed_advance hw p topic with hl | hl
    · rw [hl]
    · rw [hl]
      exact List.filter_sublist
  · intro topic i hi hnot
    rcases listed_advance hw p topic with hl | hl <;> rw [hl] at hnot
    · exact absurd hi hnot
    · simpa [hi] using hnot
  · intro topic
    rw [hkin.count topic, count_eq, count_eq]
    refine congrArg List.length (List.filter_congr ?_)
    intro i hi
    rw [isDropped_unpruned (hw.sound.isOn_of_mem_listed hi) p]

/-- The registry of an open exchange lists and counts the streams that are there. Its lists are not empty, each holds the
    streams of its topic in the order in which they were opened, and what it holds besides are streams that have been
    dropped. A publication that takes some of these out changes no count, and nothing that anybody reads later. -/
theorem registry_lists_streams (hr : Reachable capacity h) (hopen : h.exchange.closed = false) : h.Registered := by
  have hw := hr.wellListed
  have hstreams : ∀ topic, ((h.exchange.listed topic).filter fun i => !h.exchange.isDropped i) =
      h.exchange.streams topic := hw.filter_listed_of_open hr.faithful.listed hopen
  exact {
    topics := hw.neat.topics
    nonempty := hw.neat.nonempty
    own := fun _ _ hi => hw.sound.isOn_of_mem_listed hi
    ordered := fun _ => pairwise_listed hw.neat
    streams := hstreams
    count := fun topic => by rw [count_eq, hstreams]
    admits := fun t topic => by simp [step, letIn, hopen]
    opens := fun hsize _ _ ha => streams_register ha hsize
    oversized := fun hover k => congrArg (fun e => Hub.mk _ e) (register_of_isOversized hover k)
    remains := fun _ ho => streams_step ho
    prunes := prunes_of_wellListed hw hopen }

/-- Three streams of one topic, of which the second is dropped while a publication is on its way to them. -/
def missing : List Op :=
  [.token, .subscribe 0 "t", .subscribe 0 "t", .subscribe 0 "t", .register 0, .register 0, .register 0,
    .publish "t" [{ id := "1", payload := [] }], .advance 0, .drop 1, .cancel 0,
    .advance 0, .advance 0, .advance 0, .advance 0]

/-- The next turn of that publication takes the second stream out. -/
theorem registry_lists_streams_of_missing : ((start none).run missing).exchange.closed = false ∧
    ((start none).run missing).exchange.listed "t" = [0, 1, 2] ∧
    (((start none).run missing).step (.advance 0)).exchange.listed "t" = [0, 2] ∧ ((start none).run missing).Registered :=
  ⟨rfl, rfl, rfl, registry_lists_streams (Reachable.start.run missing) rfl⟩

end Hub
end Relay
