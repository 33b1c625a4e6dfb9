import Relay.Exchange.Run

/-! The queues of an exchange. What has been read from a subscription and what is left in its queue
    are what was accepted, in order, as long as its reader is there; and whatever was accepted is a
    message of a publication on the topic of the subscription. Only `poll` and `drop` take something
    away from a queue; all other operations feed it. What an operation may do is said once
    (`Hub.Moves`), and whatever is proved of one operation goes by its cases. -/

namespace Relay

/-! ### What is done to one subscription -/

namespace Subscription

/-- What those who do not read from a subscription do to it: they put messages behind the others. -/
structure Fed (s s' : Subscription) : Prop where
  topic : s'.topic = s.topic
  token : s'.token = s.token
  taken : s'.taken = s.taken
  dropped : s'.dropped = s.dropped
  fed : ∃ new, s'.queue = s.queue ++ new.map (·.2) ∧ s'.accepted = s.accepted ++ new ∧
    (s.dropped = true → new = [])

namespace Fed
variable {s t u : Subscription}

theorem of_eq (htopic : t.topic = s.topic) (htoken : t.token = s.token) (htaken : t.taken = s.taken)
    (hdropped : t.dropped = s.dropped) (hqueue : t.queue = s.queue) (haccepted : t.accepted = s.accepted) :
    s.Fed t :=
  ⟨htopic, htoken, htaken, hdropped, [], by simp [hqueue, haccepted]⟩

theorem refl (s : Subscription) : s.Fed s := of_eq rfl rfl rfl rfl rfl rfl

theorem trans (h₁ : s.Fed t) (h₂ : t.Fed u) : s.Fed u := by
  obtain ⟨new₁, q₁, a₁, d₁⟩ := h₁.fed
  obtain ⟨new₂, q₂, a₂, d₂⟩ := h₂.fed
  refine ⟨h₂.topic.trans h₁.topic, h₂.token.trans h₁.token, h₂.taken.trans h₁.taken, h₂.dropped.trans h₁.dropped,
    new₁ ++ new₂, by simp [q₁, q₂], by simp [a₁, a₂], fun hd => ?_⟩
  simp [d₁ hd, d₂ (h₁.dropped.trans hd)]

theorem accept {p : Nat} {m : Message} (hd : s.dropped = false) : s.Fed (s.accept p m) :=
  ⟨rfl, rfl, rfl, rfl, [(p, m)], rfl, rfl, fun h => by simp [hd] at h⟩

theorem await {p : Nat} : s.Fed (s.await p) := of_eq rfl rfl rfl rfl rfl rfl

theorem grant : s.Fed s.grant := by
  unfold Subscription.grant
  split
  · exact refl s
  · exact of_eq rfl rfl rfl rfl rfl rfl

theorem withdraw {p : Nat} : s.Fed (s.withdraw p) := by
  unfold Subscription.withdraw
  split
  · exact trans (t := { s with granted := s.granted.erase p }) (of_eq rfl rfl rfl rfl rfl rfl) grant
  · exact of_eq rfl rfl rfl rfl rfl rfl

end Fed

/-- What was read and what is left is what was accepted; what is missing at the end was thrown away
    when the reader went. -/
def Ordered (s : Subscription) : Prop :=
  s.taken ++ s.queue <+: s.accepted.map (·.2) ∧
    (s.dropped = false → s.taken ++ s.queue = s.accepted.map (·.2))

namespace Ordered
variable {s t : Subscription}

theorem fed (h : s.Ordered) (hf : s.Fed t) : t.Ordered := by
  obtain ⟨new, hq, ha, hd⟩ := hf.fed
  unfold Ordered
  rw [hf.taken, hf.dropped, hq, ha, List.map_append, ← List.append_assoc]
  cases hdrop : s.dropped with
  | true =>
    rw [hd hdrop]
    simpa using h.1
  | false =>
    have heq : s.taken ++ s.queue ++ new.map (·.2) = s.accepted.map (·.2) ++ new.map (·.2) :=
      congrArg (· ++ _) (h.2 hdrop)
    exact ⟨⟨[], by rw [List.append_nil, heq]⟩, fun _ => heq⟩

theorem take {m : Message} {rest : List Message} (h : s.Ordered) (hq : s.queue = m :: rest) :
    (s.take m rest).Ordered := by
  refine Ordered.fed (s := { s with queue := rest, taken := s.taken ++ [m] }) ?_ Fed.grant
  simpa [Ordered, hq] using h

theorem drop (h : s.Ordered) : s.drop.Ordered := by
  refine ⟨?_, fun hd => by simp [Subscription.drop] at hd⟩
  simpa [Subscription.drop] using (List.prefix_append s.taken s.queue).trans h.1

end Ordered

@[simp] theorem grant_taken (s : Subscription) : s.grant.taken = s.taken := Fed.grant.taken

@[simp] theorem grant_dropped (s : Subscription) : s.grant.dropped = s.dropped := Fed.grant.dropped

@[simp] theorem grant_topic (s : Subscription) : s.grant.topic = s.topic := Fed.grant.topic

@[simp] theorem grant_token (s : Subscription) : s.grant.token = s.token := Fed.grant.token

@[simp] theorem grant_accepted (s : Subscription) : s.grant.accepted = s.accepted := by
  unfold grant
  split <;> rfl

@[simp] theorem grant_queue (s : Subscription) : s.grant.queue = s.queue := by
  unfold grant
  split <;> rfl

end Subscription

/-! ### One step of a publication -/

namespace Exchange
variable {e : Exchange}

/-- What one step of publication `p` makes of an exchange, and when. -/
inductive Advance (e : Exchange) (p : Nat) : Exchange → Prop where
  /-- It has returned, or waits, or was never begun. -/
  | stays : Advance e p e
  | refused {q : Publication} : e.publications[p]? = some q → q.progress = .fresh → e.closed = true →
      Advance e p (e.setProgress p (.ended (some .closed)))
  | unheard {q : Publication} : e.publications[p]? = some q → q.progress = .fresh → e.closed = false →
      e.registry.lookup q.topic = none → Advance e p (e.setProgress p (.ended none))
  | begins {q : Publication} {targets : List Nat} : e.publications[p]? = some q → q.progress = .fresh →
      e.closed = false → e.registry.lookup q.topic = some targets →
      Advance e p (e.updatePublication p fun q =>
        { q with targets, progress := .sending (q.batch.map (·.onTopic q.topic)) targets })
  | finishes {q : Publication} {ahead : List Nat} {registry : Registry} : e.publications[p]? = some q →
      q.progress = .sending [] ahead →
      registry = (if q.missed then e.registry.prune q.topic fun s => !e.isDropped s else e.registry) →
      Advance e p ({ e with registry }.setProgress p (.ended none))
  | proceeds {q : Publication} {m : Message} {rest : List Message} : e.publications[p]? = some q →
      q.progress = .sending (m :: rest) [] → Advance e p (e.setProgress p (.sending rest q.targets))
  | cutShort {q : Publication} {m : Message} {rest : List Message} {s : Nat} {ahead : List Nat} :
      e.publications[p]? = some q → q.progress = .sending (m :: rest) (s :: ahead) → e.closed = true →
      Advance e p ((e.updateSubscription s (·.withdraw p)).setProgress p (.ended (some .closed)))
  | skips {q : Publication} {m : Message} {rest : List Message} {s : Nat} {ahead : List Nat} :
      e.publications[p]? = some q → q.progress = .sending (m :: rest) (s :: ahead) → e.closed = false →
      e.subscriptions[s]? = none → Advance e p (e.setProgress p (.sending (m :: rest) ahead))
  | misses {q : Publication} {m : Message} {rest : List Message} {s : Nat} {ahead : List Nat}
      {sub : Subscription} : e.publications[p]? = some q → q.progress = .sending (m :: rest) (s :: ahead) →
      e.closed = false → e.subscriptions[s]? = some sub → sub.dropped = true →
      Advance e p (e.updatePublication p fun q =>
        { q with missed := true, progress := .sending (m :: rest) ahead })
  | accepted {q : Publication} {m : Message} {rest : List Message} {s : Nat} {ahead : List Nat}
      {sub : Subscription} : e.publications[p]? = some q → q.progress = .sending (m :: rest) (s :: ahead) →
      e.closed = false → e.subscriptions[s]? = some sub → sub.dropped = false →
      (p ∈ sub.granted ∨ (p ∉ sub.waiting ∧ e.hasRoom sub)) →
      Advance e p ((e.updateSubscription s (·.accept p m)).setProgress p (.sending (m :: rest) ahead))
  | waits {q : Publication} {m : Message} {rest : List Message} {s : Nat} {ahead : List Nat}
      {sub : Subscription} : e.publications[p]? = some q → q.progress = .sending (m :: rest) (s :: ahead) →
      e.closed = false → e.subscriptions[s]? = some sub → sub.dropped = false → p ∉ sub.granted →
      p ∉ sub.waiting → e.hasRoom sub = false → Advance e p (e.updateSubscription s (·.await p))

theorem advance_cases (e : Exchange) (p : Nat) : e.Advance p (e.advance p) := by
  unfold advance
  split
  · exact .stays
  · rename_i q hq
    split
    · exact .stays
    · rename_i hprogress
      by_cases hc : e.closed = true
      · rw [if_pos hc]
        exact .refused hq hprogress hc
      · rw [if_neg hc]
        have hc' := Bool.eq_false_iff.mpr hc
        split
        · rename_i hl
          exact .unheard hq hprogress hc' hl
        · rename_i targets hl
          exact .begins hq hprogress hc' hl
    · rename_i ahead hprogress
      dsimp only
      split
      · rename_i hm
        exact .finishes hq hprogress (by rw [if_pos hm])
      · rename_i hm
        exact .finishes hq hprogress (by rw [if_neg hm])
    · rename_i m rest hprogress
      exact .proceeds hq hprogress
    · rename_i m rest s ahead hprogress
      unfold send
      by_cases hc : e.closed = true
      · rw [if_pos hc]
        exact .cutShort hq hprogress hc
      · rw [if_neg hc]
        have hc' := Bool.eq_false_iff.mpr hc
        split
        · rename_i hs
          exact .skips hq hprogress hc' hs
        · rename_i sub hs
          by_cases hd : sub.dropped = true
          · rw [if_pos hd]
            exact .misses hq hprogress hc' hs hd
          · rw [if_neg hd]
            have hd' := Bool.eq_false_iff.mpr hd
            split
            · rename_i hroom
              exact .accepted hq hprogress hc' hs hd' hroom
            · rename_i hroom
              split
              · exact .stays
              · rename_i hw
                rw [not_or, not_and] at hroom
                exact .waits hq hprogress hc' hs hd' hroom.1 hw (Bool.eq_false_iff.mpr (hroom.2 hw))

/-! ### What a step leaves as it is -/

/-- What no operation undoes: subscriptions and publications keep their places and what they are for. -/
structure Evolves (e e' : Exchange) : Prop where
  capacity : e'.capacity = e.capacity
  closed : e.closed = true → e'.closed = true
  subscription : ∀ {i : Nat} {sub : Subscription}, e.subscriptions[i]? = some sub →
    ∃ sub', e'.subscriptions[i]? = some sub' ∧ sub'.topic = sub.topic ∧ sub'.token = sub.token ∧
      (sub.dropped = true → sub'.dropped = true)
  publication : ∀ {p : Nat} {q : Publication}, e.publications[p]? = some q →
    ∃ q', e'.publications[p]? = some q' ∧ q'.topic = q.topic ∧ q'.batch = q.batch

/-- What the `k`-th of the calls that have been admitted makes of an exchange when it is registered. -/
def registered (e : Exchange) (k : Nat) (a : Admission) : Exchange :=
  { e with
    admitted := e.admitted.eraseIdx k
    subscriptions := e.subscriptions ++ [{ topic := a.topic, token := a.token }]
    registry := e.registry.enlist a.topic e.subscriptions.length }

/-- Every subscription but those of which `read` holds is fed, or left as it is. -/
def Feeds (read : Nat → Prop) (e e' : Exchange) : Prop :=
  ∀ i sub, ¬read i → e.subscriptions[i]? = some sub → ∃ sub', e'.subscriptions[i]? = some sub' ∧ sub.Fed sub'

theorem Evolves.refl (e : Exchange) : e.Evolves e :=
  ⟨rfl, id, fun h => ⟨_, h, rfl, rfl, id⟩, fun h => ⟨_, h, rfl, rfl⟩⟩

theorem Evolves.trans {e₁ e₂ : Exchange} (h₁ : e.Evolves e₁) (h₂ : e₁.Evolves e₂) : e.Evolves e₂ where
  capacity := h₂.capacity.trans h₁.capacity
  closed h := h₂.closed (h₁.closed h)
  subscription h := by
    obtain ⟨sub₁, hs₁, ht₁, hk₁, hd₁⟩ := h₁.subscription h
    obtain ⟨sub₂, hs₂, ht₂, hk₂, hd₂⟩ := h₂.subscription hs₁
    exact ⟨sub₂, hs₂, ht₂.trans ht₁, hk₂.trans hk₁, fun h => hd₂ (hd₁ h)⟩
  publication h := by
    obtain ⟨q₁, hq₁, ht₁, hb₁⟩ := h₁.publication h
    obtain ⟨q₂, hq₂, ht₂, hb₂⟩ := h₂.publication hq₁
    exact ⟨q₂, hq₂, ht₂.trans ht₁, hb₂.trans hb₁⟩

theorem Evolves.length_subscriptions {e e' : Exchange} (h : e.Evolves e') :
    e.subscriptions.length ≤ e'.subscriptions.length := by
  refine Nat.le_of_not_lt fun hlt => ?_
  obtain ⟨_, hs, -⟩ := h.subscription (List.getElem?_eq_getElem hlt)
  exact Nat.lt_irrefl _ (List.getElem?_eq_some_iff.mp hs).1

theorem Feeds.refl (read : Nat → Prop) (e : Exchange) : Feeds read e e :=
  fun _ _ _ h => ⟨_, h, .refl _⟩

theorem Feeds.trans {read : Nat → Prop} {e₁ e₂ : Exchange} (h₁ : Feeds read e e₁) (h₂ : Feeds read e₁ e₂) :
    Feeds read e e₂ := fun _ _ hi h => by
  obtain ⟨sub₁, hs₁, hf₁⟩ := h₁ _ _ hi h
  obtain ⟨sub₂, hs₂, hf₂⟩ := h₂ _ _ hi hs₁
  exact ⟨sub₂, hs₂, hf₁.trans hf₂⟩

theorem subscription?_update {s i : Nat} {f : Subscription → Subscription} {sub : Subscription}
    (h : e.subscriptions[i]? = some sub) :
    (e.updateSubscription s f).subscriptions[i]? = some (if s = i then f sub else sub) := by
  simp only [updateSubscription, List.getElem?_modify, h]
  split <;> rfl

theorem publication?_update {p i : Nat} {f : Publication → Publication} {q : Publication}
    (h : e.publications[i]? = some q) :
    (e.updatePublication p f).publications[i]? = some (if p = i then f q else q) := by
  simp only [updatePublication, List.getElem?_modify, h]
  split <;> rfl

theorem of_subscription?_update {s i : Nat} {f : Subscription → Subscription} {sub' : Subscription}
    (h : (e.updateSubscription s f).subscriptions[i]? = some sub') :
    ∃ sub, e.subscriptions[i]? = some sub ∧ (if s = i then f sub else sub) = sub' := by
  simpa only [updateSubscription, List.getElem?_modify, Option.map_eq_map, Option.map_eq_some_iff] using h

theorem of_publication?_update {p i : Nat} {f : Publication → Publication} {q' : Publication}
    (h : (e.updatePublication p f).publications[i]? = some q') :
    ∃ q, e.publications[i]? = some q ∧ (if p = i then f q else q) = q' := by
  simpa only [updatePublication, List.getElem?_modify, Option.map_eq_map, Option.map_eq_some_iff] using h

theorem publication?_cases {f : Publication → Publication} {p p' : Nat} {q q' : Publication}
    (hq : e.publications[p]? = some q) (h : (e.updatePublication p f).publications[p']? = some q') :
    p' = p ∧ q' = f q ∨ p ≠ p' ∧ e.publications[p']? = some q' := by
  obtain ⟨q₀, hq₀, rfl⟩ := of_publication?_update h
  by_cases hp : p = p'
  · subst hp
    rw [hq] at hq₀
    cases hq₀
    exact .inl ⟨rfl, if_pos rfl⟩
  · rw [if_neg hp]
    exact .inr ⟨hp, hq₀⟩

theorem evolves_updateSubscription {s : Nat} {f : Subscription → Subscription}
    (hf : ∀ sub, (f sub).topic = sub.topic ∧ (f sub).token = sub.token ∧
      (sub.dropped = true → (f sub).dropped = true)) :
    e.Evolves (e.updateSubscription s f) where
  capacity := rfl
  closed := id
  subscription {i sub} h := by
    refine ⟨_, subscription?_update h, ?_⟩
    split
    · exact hf sub
    · exact ⟨rfl, rfl, id⟩
  publication h := ⟨_, h, rfl, rfl⟩

theorem evolves_updatePublication {p : Nat} {f : Publication → Publication}
    (hf : ∀ q, (f q).topic = q.topic ∧ (f q).batch = q.batch) : e.Evolves (e.updatePublication p f) where
  capacity := rfl
  closed := id
  subscription h := ⟨_, h, rfl, rfl, id⟩
  publication {i q} h := by
    refine ⟨_, publication?_update h, ?_⟩
    split
    · exact hf q
    · exact ⟨rfl, rfl⟩

theorem feeds_updateSubscription {read : Nat → Prop} {s : Nat} {f : Subscription → Subscription}
    (hf : ∀ sub, e.subscriptions[s]? = some sub → sub.Fed (f sub)) : Feeds read e (e.updateSubscription s f) :=
  fun i sub _ h => by
    refine ⟨_, subscription?_update h, ?_⟩
    by_cases hs : s = i
    · subst hs
      rw [if_pos rfl]
      exact hf sub h
    · rw [if_neg hs]
      exact .refl sub

theorem Advance.evolves {e' : Exchange} {p : Nat} (h : e.Advance p e') : e.Evolves e' := by
  cases h with
  | stays => exact .refl e
  | refused _ _ _ => exact evolves_updatePublication fun _ => ⟨rfl, rfl⟩
  | unheard _ _ _ _ => exact evolves_updatePublication fun _ => ⟨rfl, rfl⟩
  | begins _ _ _ _ => exact evolves_updatePublication fun _ => ⟨rfl, rfl⟩
  | @finishes q ahead registry _ _ _ =>
    have hr : e.Evolves { e with registry } := ⟨rfl, id, fun h => ⟨_, h, rfl, rfl, id⟩, fun h => ⟨_, h, rfl, rfl⟩⟩
    exact hr.trans (evolves_updatePublication fun _ => ⟨rfl, rfl⟩)
  | proceeds _ _ => exact evolves_updatePublication fun _ => ⟨rfl, rfl⟩
  | cutShort _ _ _ =>
    refine .trans (evolves_updateSubscription fun sub => ?_) (evolves_updatePublication fun _ => ⟨rfl, rfl⟩)
    have hw : sub.Fed (sub.withdraw p) := .withdraw
    exact ⟨hw.topic, hw.token, fun h => hw.dropped.trans h⟩
  | skips _ _ _ _ => exact evolves_updatePublication fun _ => ⟨rfl, rfl⟩
  | misses _ _ _ _ _ => exact evolves_updatePublication fun _ => ⟨rfl, rfl⟩
  | accepted _ _ _ _ _ _ =>
    refine .trans (evolves_updateSubscription fun sub => ?_) (evolves_updatePublication fun _ => ⟨rfl, rfl⟩)
    exact ⟨rfl, rfl, id⟩
  | waits _ _ _ _ _ _ _ _ => exact evolves_updateSubscription fun sub => ⟨rfl, rfl, id⟩

/-- A turn makes no difference to the calls that are under way. -/
theorem Advance.calls {e' : Exchange} {p : Nat} (h : e.Advance p e') :
    e'.admitted = e.admitted ∧ e'.clearing = e.clearing := by
  cases h <;> exact ⟨rfl, rfl⟩

/-- What a turn does to the lists is to prune one of them, if anything. -/
theorem Advance.registry {e' : Exchange} {p : Nat} (h : e.Advance p e') : e'.registry = e.registry ∨
    ∃ topic, e'.registry = e.registry.prune topic fun s => !e.isDropped s := by
  cases h with
  | @finishes q ahead registry _ _ hr =>
    by_cases hm : q.missed = true
    · rw [if_pos hm] at hr
      exact .inr ⟨q.topic, hr⟩
    · rw [if_neg hm] at hr
      exact .inl hr
  | stays | refused _ _ _ | unheard _ _ _ _ | begins _ _ _ _ | proceeds _ _ | cutShort _ _ _ | skips _ _ _ _
  | misses _ _ _ _ _ | accepted _ _ _ _ _ _ | waits _ _ _ _ _ _ _ _ => exact .inl rfl

theorem Advance.feeds {e' : Exchange} {p : Nat} {read : Nat → Prop} (h : e.Advance p e') : Feeds read e e' := by
  have marks : ∀ {e₁ : Exchange} {f : Publication → Publication}, Feeds read e₁ (e₁.updatePublication p f) :=
    fun _ _ _ h => ⟨_, h, .refl _⟩
  cases h with
  | stays => exact .refl read e
  | refused _ _ _ => exact marks
  | unheard _ _ _ _ => exact marks
  | begins _ _ _ _ => exact marks
  | finishes _ _ _ => exact fun _ _ _ h => ⟨_, h, .refl _⟩
  | proceeds _ _ => exact marks
  | cutShort _ _ _ => exact .trans (feeds_updateSubscription fun _ _ => .withdraw) marks
  | skips _ _ _ _ => exact marks
  | misses _ _ _ _ _ => exact marks
  | accepted _ _ _ hs hd _ =>
    refine .trans (feeds_updateSubscription fun sub h => ?_) marks
    rw [hs] at h
    cases h
    exact .accept hd
  | waits _ _ _ _ _ _ _ _ => exact feeds_updateSubscription fun _ _ => .await

end Exchange

namespace Hub
open Exchange
variable {h : Hub}

/-- The subscription that an operation takes something away from. -/
def Op.reads : Op → Option Nat
  | .poll s | .drop s => some s
  | _ => none

/-- Several operations, one after the other. -/
def run (h : Hub) (ops : List Op) : Hub := ops.foldl step h

theorem run_append (h : Hub) (l₁ l₂ : List Op) : h.run (l₁ ++ l₂) = (h.run l₁).run l₂ := List.foldl_append

theorem enlist_cases {e e' : Exchange} {t : Token} {topic : String} {s : Nat} (hs : e.enlist t topic = .ok (s, e')) :
    e.isOversized = false ∧ s = e.subscriptions.length ∧ e' = { e with
      subscriptions := e.subscriptions ++ [{ topic, token := t }]
      registry := e.registry.enlist topic e.subscriptions.length } := by
  unfold enlist at hs
  split at hs
  · cases hs
  · rename_i hsize
    cases hs
    exact ⟨Bool.eq_false_iff.mpr hsize, rfl, rfl⟩

theorem subscribe_cases {e e' : Exchange} {t : Token} {topic : String} {s : Nat}
    (hs : e.subscribe t topic = .ok (s, e')) : e.closed = false ∧ s = e.subscriptions.length ∧
      e' = { e with
        subscriptions := e.subscriptions ++ [{ topic, token := t }]
        registry := e.registry.enlist topic e.subscriptions.length } := by
  unfold subscribe at hs
  split at hs
  · cases hs
  · rename_i hc
    exact ⟨Bool.eq_false_iff.mpr hc, (enlist_cases hs).2⟩

theorem register_of_some {e : Exchange} {k : Nat} {a : Admission} (ha : e.admitted[k]? = some a)
    (hsize : e.isOversized = false) : e.register k = e.registered k a := by
  have hsize' : ({ e with admitted := e.admitted.eraseIdx k } : Exchange).isOversized = false := hsize
  simp only [register, ha, enlist, hsize', Bool.false_eq_true, if_false]
  rfl

theorem register_of_none {e : Exchange} {k : Nat} (ha : e.admitted[k]? = none) : e.register k = e := by
  simp only [register, ha]

/-- Where no queue can be made a call comes to nothing. -/
theorem register_of_isOversized {e : Exchange} (hsize : e.isOversized = true) (k : Nat) :
    e.register k = { e with admitted := e.admitted.eraseIdx k } := by
  have hsize' : ({ e with admitted := e.admitted.eraseIdx k } : Exchange).isOversized = true := hsize
  cases ha : e.admitted[k]? with
  | none => rw [register_of_none ha, List.eraseIdx_of_length_le (List.getElem?_eq_none_iff.mp ha)]
  | some a => simp only [register, ha, enlist, hsize', if_true]

@[simp] theorem closed_shut (e : Exchange) : e.shut.closed = true := by
  unfold shut
  split
  · assumption
  · rfl

theorem close_of_closed {e : Exchange} (hc : e.closed = true) : e.close = e := if_pos hc

theorem close_of_open {e : Exchange} (hc : e.closed = false) :
    e.close = { e with closed := true, registry := [], clearing := false } := by
  simp [close, shut, clear, hc]

@[simp] theorem closed_close (e : Exchange) : e.close.closed = true := by
  cases hc : e.closed with
  | true => rw [close_of_closed hc, hc]
  | false => rw [close_of_open hc]

/-! ### What an operation may do -/

/-- What an operation makes of an exchange, and when. -/
inductive Moves (h : Hub) : Op → Exchange → Prop where
  | stays {o : Op} : Moves h o h.exchange
  | admits {t : Token} {topic : String} : h.exchange.closed = false →
      Moves h (.subscribe t topic) { h.exchange with admitted := h.exchange.admitted ++ [⟨t, topic⟩] }
  /-- A call comes to nothing, because there can be no queue for it. -/
  | dismisses {k : Nat} {admitted : List Admission} : admitted.Sublist h.exchange.admitted →
      Moves h (.register k) { h.exchange with admitted }
  | registers {k : Nat} {a : Admission} : h.exchange.admitted[k]? = some a →
      Moves h (.register k) (h.exchange.registered k a)
  | publishes {topic : String} {batch : List Message} : Moves h (.publish topic batch)
      { h.exchange with publications := h.exchange.publications ++ [{ topic, batch }] }
  | advances {p : Nat} {e : Exchange} : h.exchange.Advance p e → Moves h (.advance p) e
  | takes {i : Nat} {s : Subscription} {m : Message} {rest : List Message} :
      h.exchange.subscriptions[i]? = some s → s.queue = m :: rest → h.exchange.hasEnded h.tokens s = false →
      Moves h (.poll i) (h.exchange.updateSubscription i (·.take m rest))
  | drops {i : Nat} : Moves h (.drop i) (h.exchange.updateSubscription i (·.drop))
  | shuts : h.exchange.closed = false → Moves h .close { h.exchange with closed := true, clearing := true }
  | clears : h.exchange.clearing = true → Moves h .clear { h.exchange with registry := [], clearing := false }

theorem register_moves (h : Hub) (k : Nat) : h.Moves (.register k) (h.exchange.register k) := by
  cases hsize : h.exchange.isOversized with
  | true =>
    rw [register_of_isOversized hsize]
    exact .dismisses (List.eraseIdx_sublist _ k)
  | false =>
    cases ha : h.exchange.admitted[k]? with
    | none =>
      rw [register_of_none ha]
      exact .stays
    | some a =>
      rw [register_of_some ha hsize]
      exact .registers ha

theorem poll_moves (h : Hub) (i : Nat) : h.Moves (.poll i) (h.exchange.poll h.tokens i).2 := by
  unfold poll
  split
  · exact .stays
  · rename_i s hs
    split
    · exact .stays
    · rename_i hend
      split
      · exact .stays
      · rename_i m rest hqueue
        exact .takes hs hqueue (Bool.eq_false_iff.mpr hend)

theorem step_moves (h : Hub) (o : Op) : h.Moves o (h.step o).exchange := by
  cases o with
  | token | derive t | cancel t => exact .stays
  | subscribe t topic =>
    simp only [step]
    cases hl : h.exchange.letIn t topic with
    | error _ => exact .stays
    | ok e =>
      unfold letIn at hl
      split at hl
      · cases hl
      · cases hl
        exact .admits (Bool.eq_false_iff.mpr ‹_›)
  | register k => exact register_moves h k
  | publish topic batch => exact .publishes
  | advance p => exact .advances (advance_cases h.exchange p)
  | poll i => exact poll_moves h i
  | drop i => exact .drops
  | close =>
    show h.Moves .close h.exchange.shut
    unfold shut
    split
    · exact .stays
    · exact .shuts (Bool.eq_false_iff.mpr ‹_›)
  | clear =>
    show h.Moves .clear h.exchange.clear
    unfold clear
    split
    · exact .clears ‹_›
    · exact .stays

/-- A call for a subscription leaves the tokens as they are. -/
@[simp] theorem tokens_subscribe (h : Hub) (t : Token) (topic : String) :
    (h.step (.subscribe t topic)).tokens = h.tokens := by
  unfold step
  dsimp only
  split <;> rfl

/-! ### Calls that nothing comes between -/

theorem run_subscribe {e : Exchange} {t : Token} {topic : String} {s : Nat}
    (hs : h.exchange.subscribe t topic = .ok (s, e)) :
    h.run [.subscribe t topic, .register h.exchange.admitted.length] = { h with exchange := e } := by
  obtain ⟨hc, -, rfl⟩ := subscribe_cases hs
  have hsize : h.exchange.isOversized = false := by
    rw [subscribe, hc] at hs
    exact (enlist_cases hs).1
  unfold isOversized at hsize
  -- The call is admitted as the last one, and taken from there.
  simp [run, step, letIn, register, enlist, isOversized, hc, hsize, List.eraseIdx_append_of_length_le (Nat.le_refl _)]

theorem run_close (h : Hub) :
    ∃ ops, h.run ops = { h with exchange := h.exchange.close } ∧ ∀ o ∈ ops, o.reads = none := by
  cases hc : h.exchange.closed with
  | true => exact ⟨[], by rw [close_of_closed hc]; rfl, fun _ ho => nomatch ho⟩
  | false =>
    refine ⟨[.close, .clear], ?_, by simp [Op.reads]⟩
    simp [run, step, close, hc]

theorem evolves_take {e : Exchange} {s : Nat} {m : Message} {rest : List Message} :
    e.Evolves (e.updateSubscription s (·.take m rest)) :=
  evolves_updateSubscription fun sub => by simp [Subscription.take]

theorem evolves_drop {e : Exchange} {s : Nat} : e.Evolves (e.drop s) :=
  evolves_updateSubscription fun _ => ⟨rfl, rfl, fun _ => rfl⟩

theorem evolves_calls {e : Exchange} {admitted : List Admission} : e.Evolves { e with admitted } :=
  ⟨rfl, id, fun h => ⟨_, h, rfl, rfl, id⟩, fun h => ⟨_, h, rfl, rfl⟩⟩

theorem evolves_registered {e : Exchange} {k : Nat} {a : Admission} : e.Evolves (e.registered k a) where
  capacity := rfl
  closed := id
  subscription h := ⟨_, (List.getElem?_append_left (List.getElem?_eq_some_iff.mp h).1).trans h, rfl, rfl, id⟩
  publication h := ⟨_, h, rfl, rfl⟩

theorem evolves_publish {e : Exchange} {q : Publication} :
    e.Evolves { e with publications := e.publications ++ [q] } where
  capacity := rfl
  closed := id
  subscription h := ⟨_, h, rfl, rfl, id⟩
  publication h := ⟨_, by rw [List.getElem?_append_left (List.getElem?_eq_some_iff.mp h).1]; exact h, rfl, rfl⟩

theorem step_evolves (h : Hub) (o : Op) : h.exchange.Evolves (h.step o).exchange := by
  have hm := h.step_moves o
  generalize (h.step o).exchange = e at hm ⊢
  cases hm with
  | stays => exact .refl _
  | admits _ | dismisses _ => exact evolves_calls
  | registers _ => exact evolves_registered
  | publishes => exact evolves_publish
  | advances ha => exact ha.evolves
  | takes _ _ _ => exact evolves_take
  | drops => exact evolves_drop
  | shuts _ => exact ⟨rfl, fun _ => rfl, fun h => ⟨_, h, rfl, rfl, id⟩, fun h => ⟨_, h, rfl, rfl⟩⟩
  | clears _ => exact ⟨rfl, id, fun h => ⟨_, h, rfl, rfl, id⟩, fun h => ⟨_, h, rfl, rfl⟩⟩

theorem step_feeds (h : Hub) (o : Op) : Feeds (o.reads = some ·) h.exchange (h.step o).exchange := by
  -- A step that only changes the subscription it reads from.
  have elsewhere : ∀ {s : Nat} {f : Subscription → Subscription},
      Feeds (some s = some ·) h.exchange (h.exchange.updateSubscription s f) := fun {s f} i sub hi hs => by
    refine ⟨_, subscription?_update hs, ?_⟩
    rw [if_neg fun he => hi (congrArg some he)]
    exact .refl sub
  have hm := h.step_moves o
  generalize (h.step o).exchange = e at hm ⊢
  cases hm with
  | stays | admits _ | dismisses _ | publishes | shuts _ | clears _ => exact fun _ _ _ hs => ⟨_, hs, .refl _⟩
  | registers _ =>
    exact fun i sub _ hi => ⟨sub, (List.getElem?_append_left (List.getElem?_eq_some_iff.mp hi).1).trans hi, .refl sub⟩
  | advances ha => exact ha.feeds
  | takes _ _ _ | drops => exact elsewhere

theorem run_evolves (h : Hub) (ops : List Op) : h.exchange.Evolves (h.run ops).exchange := by
  induction ops generalizing h with
  | nil => exact .refl _
  | cons o ops ih => exact (step_evolves h o).trans (ih (h.step o))

theorem run_feeds {read : Nat → Prop} (h : Hub) {ops : List Op} (ho : ∀ o ∈ ops, ∀ i, o.reads = some i → read i) :
    Feeds read h.exchange (h.run ops).exchange := by
  induction ops generalizing h with
  | nil => exact .refl _ _
  | cons o ops ih =>
    refine .trans (fun i sub hi hs => ?_) (ih (h.step o) fun o' ho' => ho o' (List.mem_cons_of_mem _ ho'))
    exact step_feeds h o i sub (fun hr => hi (ho o List.mem_cons_self i hr)) hs

end Hub

end Relay
