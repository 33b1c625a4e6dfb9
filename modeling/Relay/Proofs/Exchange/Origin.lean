import Relay.Proofs.Exchange.Queues

/-! Where the messages of a queue come from. A publication goes to subscriptions of its own topic and
    sends its batch from the front to the end, so every message that a subscription has accepted was
    published on the topic of the subscription and carries that topic. -/

namespace Relay

/-! ### Lists of subscriptions -/

namespace Registry
variable {r : Registry} {topic : String} {entry : String × List Nat}

theorem mem_enlist {s : Nat} (h : entry ∈ r.enlist topic s) :
    entry ∈ r ∨ ∃ l, (l = [] ∨ (topic, l) ∈ r) ∧ entry = (topic, l ++ [s]) := by
  induction r with
  | nil => exact .inr ⟨[], .inl rfl, List.mem_singleton.mp h⟩
  | cons head rest ih =>
    obtain ⟨t, l⟩ := head
    unfold enlist at h
    split at h
    · rename_i ht
      subst ht
      rcases List.mem_cons.mp h with rfl | h
      · exact .inr ⟨l, .inr List.mem_cons_self, rfl⟩
      · exact .inl (List.mem_cons_of_mem _ h)
    · rcases List.mem_cons.mp h with rfl | h
      · exact .inl List.mem_cons_self
      · rcases ih h with h | ⟨l', hl, he⟩
        · exact .inl (List.mem_cons_of_mem _ h)
        · exact .inr ⟨l', hl.imp id (List.mem_cons_of_mem _), he⟩

/-- Pruning takes subscriptions out of one entry, and the entry out if none is left. -/
theorem mem_prune {keep : Nat → Bool} (h : entry ∈ r.prune topic keep) :
    ∃ l, (entry.1, l) ∈ r ∧ entry.2.Sublist l := by
  induction r with
  | nil => cases h
  | cons head rest ih =>
    obtain ⟨t, l⟩ := head
    unfold prune at h
    split at h
    · split at h
      · exact ⟨entry.2, List.mem_cons_of_mem _ h, .refl _⟩
      · rcases List.mem_cons.mp h with rfl | h
        · exact ⟨l, List.mem_cons_self, List.filter_sublist⟩
        · exact ⟨entry.2, List.mem_cons_of_mem _ h, .refl _⟩
    · rcases List.mem_cons.mp h with rfl | h
      · exact ⟨l, List.mem_cons_self, .refl _⟩
      · obtain ⟨l', hl', hs⟩ := ih h
        exact ⟨l', List.mem_cons_of_mem _ hl', hs⟩

theorem mem_of_lookup {l : List Nat} (h : r.lookup topic = some l) : (topic, l) ∈ r := by
  obtain ⟨l₁, l₂, hr, -⟩ := List.lookup_eq_some_iff.mp h
  exact hr ▸ List.mem_append_right _ List.mem_cons_self

end Registry

theorem getElem?_concat_cases {α : Type} {l : List α} {a b : α} {i : Nat} (h : (l ++ [a])[i]? = some b) :
    l[i]? = some b ∨ i = l.length ∧ b = a := by
  rw [List.getElem?_append] at h
  split at h
  · exact .inl h
  · rename_i hi
    have hlt := (List.getElem?_eq_some_iff.mp h).1
    rw [List.length_singleton] at hlt
    exact .inr ⟨by omega, List.mem_singleton.mp (List.mem_of_getElem? h)⟩

/-! ### Publications and what they are for -/

namespace Exchange
variable {e : Exchange}

/-- Subscription `i` is one on this topic. -/
def IsOn (e : Exchange) (i : Nat) (topic : String) : Prop :=
  ∃ sub, e.subscriptions[i]? = some sub ∧ sub.topic = topic

/-- A publication is for subscriptions of its topic, and what it still has to send is the last part of
    its batch. -/
structure Addressed (e : Exchange) (q : Publication) : Prop where
  targets : ∀ i ∈ q.targets, e.IsOn i q.topic
  sending : ∀ {rest : List Message} {ahead : List Nat}, q.progress = .sending rest ahead →
    rest <:+ q.batch.map (·.onTopic q.topic) ∧ ahead <:+ q.targets

/-- An accepted message is one of the batch of its publication, which was on this topic. -/
def Published (e : Exchange) (topic : String) (a : Nat × Message) : Prop :=
  ∃ q, e.publications[a.1]? = some q ∧ q.topic = topic ∧ ∃ m ∈ q.batch, a.2 = m.onTopic topic

/-- Topics list their own subscriptions, publications are addressed, and queues hold what was published,
    in order. -/
structure Sound (e : Exchange) : Prop where
  listed : ∀ entry ∈ e.registry, ∀ i ∈ entry.2, e.IsOn i entry.1
  addressed : ∀ {p : Nat} {q : Publication}, e.publications[p]? = some q → e.Addressed q
  ordered : ∀ {i : Nat} {sub : Subscription}, e.subscriptions[i]? = some sub → sub.Ordered
  published : ∀ {i : Nat} {sub : Subscription}, e.subscriptions[i]? = some sub →
    ∀ a ∈ sub.accepted, e.Published sub.topic a

theorem IsOn.evolves {e' : Exchange} {i : Nat} {topic : String} (h : e.IsOn i topic) (he : e.Evolves e') :
    e'.IsOn i topic := by
  obtain ⟨sub, hs, ht⟩ := h
  obtain ⟨sub', hs', ht', -⟩ := he.subscription hs
  exact ⟨sub', hs', ht'.trans ht⟩

theorem Addressed.evolves {e' : Exchange} {q : Publication} (h : e.Addressed q) (he : e.Evolves e') :
    e'.Addressed q :=
  ⟨fun i hi => (h.targets i hi).evolves he, h.sending⟩

theorem Published.evolves {e' : Exchange} {topic : String} {a : Nat × Message} (h : e.Published topic a)
    (he : e.Evolves e') : e'.Published topic a := by
  obtain ⟨q, hq, ht, m, hm, ha⟩ := h
  obtain ⟨q', hq', ht', hb'⟩ := he.publication hq
  exact ⟨q', hq', ht'.trans ht, m, hb' ▸ hm, ha⟩

namespace Sound

theorem updatePublication {p : Nat} {f : Publication → Publication} (h : e.Sound)
    (hf : ∀ q, (f q).topic = q.topic ∧ (f q).batch = q.batch)
    (ha : ∀ q, e.publications[p]? = some q → e.Addressed (f q)) : (e.updatePublication p f).Sound where
  listed := h.listed
  addressed {i q'} hq' := by
    refine Addressed.evolves ?_ (evolves_updatePublication hf)
    obtain ⟨q, hq, rfl⟩ := of_publication?_update hq'
    by_cases hi : p = i
    · rw [if_pos hi]
      exact ha q (hi ▸ hq)
    · rw [if_neg hi]
      exact h.addressed hq
  ordered := h.ordered
  published hs a hm := (h.published hs a hm).evolves (evolves_updatePublication hf)

theorem updateSubscription {s : Nat} {f : Subscription → Subscription} (h : e.Sound)
    (he : e.Evolves (e.updateSubscription s f))
    (hf : ∀ sub, e.subscriptions[s]? = some sub → (f sub).topic = sub.topic ∧ (f sub).Ordered ∧
      ∀ a ∈ (f sub).accepted, a ∈ sub.accepted ∨ e.Published sub.topic a) :
    (e.updateSubscription s f).Sound := by
  have both : ∀ {i : Nat} {sub' : Subscription}, (e.updateSubscription s f).subscriptions[i]? = some sub' →
      sub'.Ordered ∧ ∀ a ∈ sub'.accepted, e.Published sub'.topic a := by
    intro i sub' hs'
    obtain ⟨sub, hs, rfl⟩ := of_subscription?_update hs'
    by_cases hi : s = i
    · rw [if_pos hi]
      obtain ⟨ht, ho, ha⟩ := hf sub (hi ▸ hs)
      refine ⟨ho, fun a hm => ?_⟩
      rw [ht]
      exact (ha a hm).elim (h.published hs a) id
    · rw [if_neg hi]
      exact ⟨h.ordered hs, h.published hs⟩
  exact {
    listed := fun entry hm i hi => (h.listed entry hm i hi).evolves he
    addressed := fun hq => (h.addressed hq).evolves he
    ordered := fun hs => (both hs).1
    published := fun hs a hm => ((both hs).2 a hm).evolves he }

theorem fed {s : Nat} {f : Subscription → Subscription} (h : e.Sound)
    (hf : ∀ sub : Subscription, sub.Fed (f sub) ∧ (f sub).accepted = sub.accepted) :
    (e.updateSubscription s f).Sound :=
  h.updateSubscription
    (evolves_updateSubscription fun sub => ⟨(hf sub).1.topic, (hf sub).1.token, fun hd => (hf sub).1.dropped.trans hd⟩)
    fun sub hs => ⟨(hf sub).1.topic, (h.ordered hs).fed (hf sub).1, fun _ hm => .inl ((hf sub).2 ▸ hm)⟩

theorem setProgress {p : Nat} {g : Progress} {q : Publication} (h : e.Sound) (hq : e.publications[p]? = some q)
    (hg : ∀ rest ahead, g = .sending rest ahead → rest <:+ q.batch.map (·.onTopic q.topic) ∧ ahead <:+ q.targets) :
    (e.setProgress p g).Sound :=
  h.updatePublication (fun _ => ⟨rfl, rfl⟩) fun q' hq' => by
    rw [hq] at hq'
    cases hq'
    exact ⟨(h.addressed hq).targets, hg _ _⟩

theorem prune {topic : String} {keep : Nat → Bool} (h : e.Sound) :
    ({ e with registry := e.registry.prune topic keep } : Exchange).Sound := by
  refine ⟨fun entry hm i hi => ?_, fun hq => ⟨(h.addressed hq).targets, (h.addressed hq).sending⟩, h.ordered,
    h.published⟩
  obtain ⟨l, hl, hs⟩ := Registry.mem_prune hm
  exact h.listed _ hl i (hs.mem hi)

theorem advance {e' : Exchange} {p : Nat} (h : e.Sound) (ha : e.Advance p e') : e'.Sound := by
  have ended : ∀ {q : Publication} {r : Option TransportError}, ∀ rest ahead, Progress.ended r = .sending rest ahead →
      rest <:+ q.batch.map (·.onTopic q.topic) ∧ ahead <:+ q.targets := fun _ _ hg => by cases hg
  cases ha with
  | stays => exact h
  | refused hq _ _ => exact h.setProgress hq ended
  | unheard hq _ _ _ => exact h.setProgress hq ended
  | @begins q targets hq hp _ hl =>
    refine h.updatePublication (fun _ => ⟨rfl, rfl⟩) fun q' hq' => ?_
    rw [hq] at hq'
    cases hq'
    refine ⟨fun i hi => h.listed (q.topic, targets) (Registry.mem_of_lookup hl) i hi, fun hg => ?_⟩
    cases hg
    exact ⟨List.suffix_rfl, List.suffix_rfl⟩
  | @finishes q ahead registry hq hp hr =>
    have hs : ({ e with registry } : Exchange).Sound := by
      rw [hr]
      split
      · exact h.prune
      · exact h
    exact hs.setProgress (q := q) hq ended
  | proceeds hq hp =>
    refine h.setProgress hq fun rest ahead hg => ?_
    cases hg
    exact ⟨(List.suffix_cons _ _).trans ((h.addressed hq).sending hp).1, List.suffix_rfl⟩
  | cutShort hq hp hc =>
    refine (h.fed fun sub => ⟨.withdraw, ?_⟩).setProgress hq ended
    unfold Subscription.withdraw
    split <;> simp
  | skips hq hp _ _ =>
    refine h.setProgress hq fun rest ahead hg => ?_
    cases hg
    exact ⟨((h.addressed hq).sending hp).1, (List.suffix_cons _ _).trans ((h.addressed hq).sending hp).2⟩
  | misses hq hp _ _ _ =>
    refine h.updatePublication (fun _ => ⟨rfl, rfl⟩) fun q' hq' => ?_
    rw [hq] at hq'
    cases hq'
    refine ⟨(h.addressed hq).targets, fun hg => ?_⟩
    cases hg
    exact ⟨((h.addressed hq).sending hp).1, (List.suffix_cons _ _).trans ((h.addressed hq).sending hp).2⟩
  | @accepted q m rest s ahead sub hq hp _ hs hd _ =>
    obtain ⟨hrest, hahead⟩ := (h.addressed hq).sending hp
    have hsound : (e.updateSubscription s (·.accept p m)).Sound := by
      refine h.updateSubscription (evolves_updateSubscription fun _ => ⟨rfl, rfl, id⟩) fun sub' hs' => ?_
      rw [hs] at hs'
      cases hs'
      refine ⟨rfl, (h.ordered hs).fed (.accept hd), fun a hm => ?_⟩
      rcases List.mem_append.mp hm with hm | hm
      · exact .inl hm
      · -- The subscription is one of the targets, and the message one of the batch.
        obtain rfl := List.mem_singleton.mp hm
        obtain ⟨sub', hs', ht⟩ := (h.addressed hq).targets s (hahead.mem List.mem_cons_self)
        rw [hs] at hs'
        cases hs'
        obtain ⟨m₀, hm₀, hm⟩ := List.mem_map.mp (hrest.mem List.mem_cons_self)
        exact .inr ⟨q, hq, ht.symm, m₀, hm₀, by rw [ht]; exact hm.symm⟩
    refine hsound.setProgress hq fun rest ahead hg => ?_
    cases hg
    exact ⟨hrest, (List.suffix_cons _ _).trans hahead⟩
  | waits hq hp _ _ _ _ _ _ => exact h.fed fun sub => ⟨.await, rfl⟩

/-- It does not matter who is to be registered, and if anybody is listed less. -/
theorem of_eq {e' : Exchange} (h : e.Sound) (hs : e'.subscriptions = e.subscriptions)
    (hq : e'.publications = e.publications) (hr : e'.registry ⊆ e.registry) : e'.Sound := by
  have on : ∀ {i : Nat} {topic : String}, e.IsOn i topic → e'.IsOn i topic := fun h => by
    rwa [IsOn, hs]
  refine ⟨fun entry hm i hi => on (h.listed entry (hr hm) i hi), fun hq' => ?_, fun hs' => h.ordered (hs ▸ hs'),
    fun hs' a ha => ?_⟩
  · have ha := h.addressed (hq ▸ hq')
    exact ⟨fun i hi => on (ha.targets i hi), ha.sending⟩
  · rw [Published, hq]
    exact h.published (hs ▸ hs') a ha

theorem registered {k : Nat} {a : Admission} (h : e.Sound) : (e.registered k a).Sound := by
  have he : e.Evolves (e.registered k a) := Hub.evolves_registered
  refine ⟨fun entry hm i hi => ?_, fun hq => (h.addressed hq).evolves he, fun hs => ?_, fun hs a ha => ?_⟩
  · rcases Registry.mem_enlist hm with hm | ⟨l, hl, rfl⟩
    · exact (h.listed _ hm i hi).evolves he
    · rcases List.mem_append.mp hi with hi | hi
      · rcases hl with rfl | hl
        · cases hi
        · exact (h.listed _ hl i hi).evolves he
      · obtain rfl := List.mem_singleton.mp hi
        exact ⟨{ topic := a.topic, token := a.token }, List.getElem?_concat_length, rfl⟩
  · rcases getElem?_concat_cases hs with hs | ⟨-, rfl⟩
    · exact h.ordered hs
    · exact ⟨List.prefix_rfl, fun _ => rfl⟩
  · rcases getElem?_concat_cases hs with hs | ⟨-, rfl⟩
    · exact (h.published hs a ha).evolves he
    · cases ha

theorem publish {topic : String} {batch : List Message} (h : e.Sound) : (e.publish topic batch).2.Sound := by
  have he := Hub.evolves_publish (e := e) (q := { topic, batch })
  refine ⟨fun entry hm i hi => (h.listed entry hm i hi).evolves he, fun {p q} hq => ?_, h.ordered,
    fun hs a ha => (h.published hs a ha).evolves he⟩
  rcases getElem?_concat_cases (l := e.publications) hq with hq | ⟨-, rfl⟩
  · exact (h.addressed hq).evolves he
  · exact ⟨fun _ hi => (nomatch hi), fun hp => (nomatch hp)⟩

theorem step {h : Hub} (hs : h.exchange.Sound) (o : Hub.Op) : (h.step o).exchange.Sound := by
  have hm := h.step_moves o
  generalize (h.step o).exchange = e' at hm ⊢
  cases hm with
  | stays => exact hs
  | admits _ | dismisses _ | shuts _ => exact hs.of_eq rfl rfl (List.Subset.refl _)
  | clears _ => exact hs.of_eq rfl rfl (List.nil_subset _)
  | registers _ => exact hs.registered
  | publishes => exact hs.publish
  | advances ha => exact hs.advance ha
  | takes hsub hq _ =>
    refine hs.updateSubscription Hub.evolves_take fun sub' hsub' => ?_
    rw [hsub] at hsub'
    cases hsub'
    exact ⟨by simp [Subscription.take], (hs.ordered hsub).take hq, fun a ha => .inl (by
      simpa [Subscription.take] using ha)⟩
  | drops =>
    exact hs.updateSubscription Hub.evolves_drop fun sub hsub =>
      ⟨rfl, (hs.ordered hsub).drop, fun _ ha => .inl ha⟩

/-- A new exchange has nothing in it. -/
theorem new (capacity : Option Nat) : ({ capacity } : Exchange).Sound :=
  ⟨fun _ hm => (nomatch hm), fun hq => by simp at hq, fun hs => by simp at hs, fun hs => by simp at hs⟩

end Sound
end Exchange
end Relay
