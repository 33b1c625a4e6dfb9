import Relay.Proofs.Exchange.Fanout
import Relay.Proofs.Isolation.Veil
import Relay.Proofs.Router.Steps

/-! Messages in flight. Where queues hold any number of messages, a publication never waits, so what is in
    the queue of a subscription and what is still on its way there is settled as soon as somebody has asked
    for the publication (`Call.Posting.delivers`). -/

namespace Relay

/-! ### Exchanges without bounds -/

namespace Exchange
variable {e e' : Exchange} {p i : Nat}

/-- Queues hold any number of messages, and nobody waits for a place. -/
structure Roomy (e : Exchange) : Prop where
  capacity : e.capacity = none
  waiting : ∀ {i : Nat} {sub : Subscription}, e.subscriptions[i]? = some sub → sub.waiting = []

namespace Roomy

theorem of_eq (h : e.Roomy) (hc : e'.capacity = e.capacity) (hs : e'.subscriptions = e.subscriptions) : e'.Roomy :=
  ⟨hc.trans h.capacity, fun hsub => h.waiting (hs ▸ hsub)⟩

theorem updateSubscription {s : Nat} {f : Subscription → Subscription} (h : e.Roomy)
    (hf : ∀ sub, sub.waiting = [] → (f sub).waiting = []) : (e.updateSubscription s f).Roomy where
  capacity := h.capacity
  waiting hs' := by
    obtain ⟨sub, hs, rfl⟩ := of_subscription?_update hs'
    split
    · exact hf sub (h.waiting hs)
    · exact h.waiting hs

theorem hasRoom (h : e.Roomy) (sub : Subscription) : e.hasRoom sub = true := by rw [Exchange.hasRoom, h.capacity]

theorem grant {sub : Subscription} (h : sub.waiting = []) : sub.grant.waiting = [] := by
  rw [Subscription.grant, h]
  exact h

theorem withdraw {sub : Subscription} (h : sub.waiting = []) : (sub.withdraw p).waiting = [] := by
  unfold Subscription.withdraw
  split
  · exact grant h
  · simp [h]

theorem advance (h : e.Roomy) (ha : e.Advance p e') : e'.Roomy := by
  cases ha with
  | stays => exact h
  | refused _ _ _ | unheard _ _ _ _ | begins _ _ _ _ | proceeds _ _ | skips _ _ _ _ | misses _ _ _ _ _
  | finishes _ _ _ => exact h.of_eq rfl rfl
  | @cutShort q m rest s ahead _ _ _ =>
    have hw : (e.updateSubscription s (·.withdraw p)).Roomy := h.updateSubscription fun _ => withdraw
    exact hw.of_eq rfl rfl
  | @accepted q m rest s ahead sub _ _ _ _ _ _ =>
    have hw : (e.updateSubscription s (·.accept p m)).Roomy := h.updateSubscription fun _ => id
    exact hw.of_eq rfl rfl
  | waits _ _ _ _ _ _ _ hfull =>
    rw [h.hasRoom] at hfull
    cases hfull

theorem step {h : Hub} (hr : h.exchange.Roomy) (o : Hub.Op) : (h.step o).exchange.Roomy := by
  have hm := h.step_moves o
  generalize (h.step o).exchange = e' at hm ⊢
  cases hm with
  | stays => exact hr
  | admits _ | dismisses _ | publishes | shuts _ | clears _ => exact hr.of_eq rfl rfl
  | registers _ =>
    refine ⟨hr.capacity, fun hsub => ?_⟩
    rcases getElem?_concat_cases hsub with hsub | ⟨-, rfl⟩
    · exact hr.waiting hsub
    · rfl
  | advances ha => exact hr.advance ha
  | takes _ _ _ => exact hr.updateSubscription fun _ hw => grant hw
  | drops => exact hr.updateSubscription fun _ _ => rfl

theorem not_blocked (h : e.Roomy) (p : Nat) : e.isBlocked p = false := by
  unfold isBlocked
  split
  · split
    · rename_i sub hs
      rw [h.waiting hs]
      simp
    · simp
  · rfl

end Roomy
end Exchange

/-! ### Publications under way -/

/-- What a publication has still to give to subscription `i`, which is one on this topic. -/
def Publication.due (q : Publication) (topic : String) (i : Nat) : List Message :=
  match q.progress with
  | .fresh => if q.topic = topic then q.messages else []
  | .sending (m :: rest) ahead => (if i ∈ ahead then [m] else []) ++ if i ∈ q.targets then rest else []
  | _ => []

namespace Exchange
variable {e e' : Exchange} {p i : Nat} {sub : Subscription} {q : Publication}

/-- The subscriptions to which a publication goes are those on its topic. -/
theorem Faithful.mem_targets {targets : List Nat} (hf : e.Faithful) (ho : e.closed = false)
    (hl : e.registry.lookup q.topic = some targets) (hs : e.subscriptions[i]? = some sub) (hd : sub.dropped = false) :
    i ∈ targets ↔ q.topic = sub.topic := by
  constructor
  · intro hi
    obtain ⟨sub', hs', ht⟩ := hf.sound.listed _ (Registry.mem_of_lookup hl) i hi
    rw [hs] at hs'
    cases hs'
    exact ht.symm
  · intro ht
    obtain ⟨l, hl', hi⟩ := hf.listed.present ho hs hd
    rw [← ht, hl] at hl'
    cases hl'
    exact hi

/-- What a publication that begins has to give is what it had to give before it began. -/
theorem Faithful.due_begins {targets : List Nat} (hf : e.Faithful) (ho : e.closed = false) (hp : q.progress = .fresh)
    (hl : e.registry.lookup q.topic = some targets) (hs : e.subscriptions[i]? = some sub) (hd : sub.dropped = false) :
    ({ q with targets, progress := .sending q.messages targets } : Publication).due sub.topic i = q.due sub.topic i := by
  have hmem := hf.mem_targets ho hl hs hd
  show (match Progress.sending q.messages targets with
    | .fresh => _
    | .sending (m :: rest) ahead => (if i ∈ ahead then [m] else []) ++ if i ∈ targets then rest else []
    | _ => []) = _
  rw [Publication.due, hp]
  dsimp only
  by_cases ht : q.topic = sub.topic
  · have hi := hmem.mpr ht
    cases q.messages <;> simp [hi, ht]
  · have hi : i ∉ targets := fun h => ht (hmem.mp h)
    cases q.messages <;> simp [hi, ht]

/-- A message that a queue takes up is no longer on its way there, and on its way elsewhere it stays. -/
theorem Faithful.due_accepts {m : Message} {rest : List Message} {s : Nat} {ahead : List Nat} (hf : e.Faithful)
    (hs : e.subscriptions[i]? = some sub) (hq : e.publications[p]? = some q)
    (hp : q.progress = .sending (m :: rest) (s :: ahead)) :
    ∃ sub', (e.updateSubscription s (·.accept p m)).subscriptions[i]? = some sub' ∧
      sub'.queue ++ ({ q with progress := .sending (m :: rest) ahead } : Publication).due sub.topic i =
        sub.queue ++ q.due sub.topic i := by
  by_cases hi : i = s
  · subst hi
    obtain ⟨-, hahead⟩ := (hf.sound.addressed hq).sending hp
    have hnot : i ∉ ahead := (List.nodup_cons.mp (hahead.sublist.nodup (hf.fanned.distinct hq))).1
    refine ⟨sub.accept p m, ?_, by simp [Publication.due, hp, hnot, Subscription.accept]⟩
    rw [subscription?_update hs, if_pos rfl]
  · refine ⟨sub, ?_, by simp [Publication.due, hp, hi]⟩
    rw [subscription?_update hs, if_neg (Ne.symm hi)]

/-- What is in a queue and what is on its way there stays the same while a publication moves. -/
theorem Advance.due (ha : e.Advance p e') (hf : e.Faithful) (hr : e.Roomy) (ho : e.closed = false)
    (hs : e.subscriptions[i]? = some sub) (hd : sub.dropped = false) (hq : e.publications[p]? = some q) :
    ∃ sub' q', e'.subscriptions[i]? = some sub' ∧ e'.publications[p]? = some q' ∧
      sub'.queue ++ q'.due sub.topic i = sub.queue ++ q.due sub.topic i := by
  have same : ∀ {q₁ : Publication}, e.publications[p]? = some q₁ → q = q₁ := fun h => Option.some.inj (hq.symm.trans h)
  -- The publication moves, and the subscription stays as it is.
  have moved : ∀ {e₁ : Exchange} {f : Publication → Publication}, e₁.subscriptions = e.subscriptions →
      e₁.publications = e.publications → (f q).due sub.topic i = q.due sub.topic i →
      ∃ sub' q', (e₁.updatePublication p f).subscriptions[i]? = some sub' ∧
        (e₁.updatePublication p f).publications[p]? = some q' ∧
        sub'.queue ++ q'.due sub.topic i = sub.queue ++ q.due sub.topic i := by
    intro e₁ f hsubs hpubs hdue
    refine ⟨sub, f q, hsubs ▸ hs, ?_, by rw [hdue]⟩
    rw [publication?_update (hpubs ▸ hq), if_pos rfl]
  cases ha with
  | stays => exact ⟨sub, q, hs, hq, rfl⟩
  | refused _ _ hc | cutShort _ _ hc =>
    rw [ho] at hc
    cases hc
  | unheard hq' hp _ hl =>
    obtain rfl := same hq'
    have hne : q.topic ≠ sub.topic := fun ht => by
      obtain ⟨l, hl', -⟩ := hf.listed.present ho hs hd
      rw [← ht, hl] at hl'
      cases hl'
    exact moved rfl rfl (by simp [Publication.due, hp, hne])
  | begins hq' hp _ hl =>
    obtain rfl := same hq'
    exact moved rfl rfl (hf.due_begins ho hp hl hs hd)
  | finishes hq' hp _ =>
    obtain rfl := same hq'
    exact moved rfl rfl (by simp [Publication.due, hp])
  | @proceeds _ m rest hq' hp =>
    obtain rfl := same hq'
    refine moved rfl rfl ?_
    cases rest with
    | nil => simp [Publication.due, hp]
    | cons m' rest =>
      by_cases hi : i ∈ q.targets <;> simp [Publication.due, hp, hi]
  | @skips _ m rest s ahead hq' hp _ hnone =>
    obtain rfl := same hq'
    have hne : i ≠ s := fun he => by
      rw [← he, hs] at hnone
      cases hnone
    exact moved rfl rfl (by simp [Publication.due, hp, hne])
  | @misses _ m rest s ahead sub' hq' hp _ hs' hdropped =>
    obtain rfl := same hq'
    have hne : i ≠ s := fun he => by
      rw [← he, hs] at hs'
      cases hs'
      rw [hd] at hdropped
      cases hdropped
    exact moved rfl rfl (by simp [Publication.due, hp, hne])
  | @accepted _ m rest s ahead sub' hq' hp _ _ _ _ =>
    obtain rfl := same hq'
    obtain ⟨sub₁, hs₁, hdue⟩ := hf.due_accepts hs hq hp
    refine ⟨sub₁, { q with progress := .sending (m :: rest) ahead }, hs₁, ?_, hdue⟩
    exact (publication?_update (e := e.updateSubscription s (·.accept p m)) hq).trans (by rw [if_pos rfl])
  | waits _ _ _ _ _ _ _ hfull =>
    rw [hr.hasRoom] at hfull
    cases hfull

/-- A publication that moves closes nothing. -/
theorem Advance.closed (h : e.Advance p e') : e'.closed = e.closed := by
  cases h <;> rfl

end Exchange
end Relay
