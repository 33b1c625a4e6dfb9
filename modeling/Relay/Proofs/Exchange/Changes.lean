import Relay.Cancellation.Lemmas
import Relay.Proofs.Exchange.Origin

/-! What an operation does to one subscription and to one publication. A subscription changes in five
    ways only; a publication changes when it moves, and never again after it has returned. -/

namespace Relay
namespace Hub
open Exchange
variable {h : Hub} {o : Op} {i p : Nat} {s s' : Subscription} {q : Publication}

theorem Reachable.run {capacity : Option Nat} (hr : Reachable capacity h) (ops : List Op) :
    Reachable capacity (h.run ops) := by
  induction ops generalizing h with
  | nil => exact hr
  | cons o ops ih => exact ih (.step o hr)

/-! ### Subscriptions -/

/-- What an operation makes of subscription `i`, and when. -/
inductive Changes (h : Hub) (i : Nat) (s : Subscription) : Op → Subscription → Prop where
  | stays {o : Op} : Changes h i s o s
  | accepts {p : Nat} {q : Publication} {m : Message} {rest : List Message} {ahead : List Nat} :
      h.exchange.publications[p]? = some q → q.progress = .sending (m :: rest) (i :: ahead) →
      h.exchange.closed = false → s.dropped = false →
      (p ∈ s.granted ∨ (p ∉ s.waiting ∧ h.exchange.hasRoom s)) → Changes h i s (.advance p) (s.accept p m)
  | awaits {p : Nat} : h.exchange.closed = false → s.dropped = false → p ∉ s.granted → p ∉ s.waiting →
      h.exchange.hasRoom s = false → Changes h i s (.advance p) (s.await p)
  | withdraws {p : Nat} : h.exchange.closed = true → Changes h i s (.advance p) (s.withdraw p)
  | takes {m : Message} {rest : List Message} : s.queue = m :: rest →
      h.exchange.hasEnded h.tokens s = false → Changes h i s (.poll i) (s.take m rest)
  | drops : Changes h i s (.drop i) s.drop

theorem of_updateSubscription {e : Exchange} {j : Nat} {f : Subscription → Subscription}
    (h : (e.updateSubscription j f).subscriptions[i]? = some s') :
    ∃ s, e.subscriptions[i]? = some s ∧ (s' = s ∨ j = i ∧ s' = f s) := by
  obtain ⟨s, hs, rfl⟩ := of_subscription?_update h
  refine ⟨s, hs, ?_⟩
  by_cases hj : j = i
  · exact .inr ⟨hj, if_pos hj⟩
  · exact .inl (if_neg hj)

theorem changes_advance {e' : Exchange} (ha : h.exchange.Advance p e') (hs' : e'.subscriptions[i]? = some s') :
    ∃ s, h.exchange.subscriptions[i]? = some s ∧ Changes h i s (.advance p) s' := by
  cases ha with
  | stays | refused _ _ _ | unheard _ _ _ _ | begins _ _ _ _ | finishes _ _ _ | proceeds _ _ | skips _ _ _ _
  | misses _ _ _ _ _ => exact ⟨s', hs', .stays⟩
  | cutShort _ _ hc =>
    obtain ⟨s, hs, rfl | ⟨-, rfl⟩⟩ := of_updateSubscription hs'
    · exact ⟨s', hs, .stays⟩
    · exact ⟨s, hs, .withdraws hc⟩
  | accepted hq hp hc hsub hd hroom =>
    obtain ⟨s, hs, rfl | ⟨rfl, rfl⟩⟩ := of_updateSubscription hs'
    · exact ⟨s', hs, .stays⟩
    · rw [hsub] at hs
      cases hs
      exact ⟨_, hsub, .accepts hq hp hc hd hroom⟩
  | waits _ _ hc hsub hd hg hw hroom =>
    obtain ⟨s, hs, rfl | ⟨rfl, rfl⟩⟩ := of_updateSubscription hs'
    · exact ⟨s', hs, .stays⟩
    · rw [hsub] at hs
      cases hs
      exact ⟨_, hsub, .awaits hc hd hg hw hroom⟩

/-- Where a subscription comes from: it was there before, or has just been registered. -/
theorem changes (hs' : (h.step o).exchange.subscriptions[i]? = some s') :
    (∃ s, h.exchange.subscriptions[i]? = some s ∧ Changes h i s o s') ∨
      i = h.exchange.subscriptions.length ∧
        ∃ k a, o = .register k ∧ h.exchange.admitted[k]? = some a ∧ s' = { topic := a.topic, token := a.token } := by
  have hm := h.step_moves o
  generalize (h.step o).exchange = e at hm hs'
  cases hm with
  | stays | admits _ | dismisses _ | publishes | shuts _ | clears _ => exact .inl ⟨s', hs', .stays⟩
  | @registers k a ha =>
    rcases getElem?_concat_cases (l := h.exchange.subscriptions) hs' with hs' | ⟨hi, rfl⟩
    · exact .inl ⟨s', hs', .stays⟩
    · exact .inr ⟨hi, k, a, rfl, ha, rfl⟩
  | advances ha => exact .inl (changes_advance ha hs')
  | takes hs₀ hqueue hend =>
    obtain ⟨s, hs, rfl | ⟨rfl, rfl⟩⟩ := of_updateSubscription hs'
    · exact .inl ⟨s', hs, .stays⟩
    · rw [hs₀] at hs
      cases hs
      exact .inl ⟨_, hs₀, .takes hqueue hend⟩
  | drops =>
    obtain ⟨s, hs, rfl | ⟨rfl, rfl⟩⟩ := of_updateSubscription hs'
    · exact .inl ⟨s', hs, .stays⟩
    · exact .inl ⟨s, hs, .drops⟩

theorem changed (hs : h.exchange.subscriptions[i]? = some s) (o : Op) :
    ∃ s', (h.step o).exchange.subscriptions[i]? = some s' ∧ Changes h i s o s' := by
  obtain ⟨s', hs', -⟩ := (step_evolves h o).subscription hs
  rcases changes hs' with ⟨s₀, hs₀, hc⟩ | ⟨rfl, -⟩
  · rw [hs] at hs₀
    cases hs₀
    exact ⟨s', hs', hc⟩
  · exact absurd (List.getElem?_eq_some_iff.mp hs).1 (Nat.lt_irrefl _)

/-! ### Publications -/

/-- A publication moves in its own turns only. -/
theorem publication_kept (hq : h.exchange.publications[p]? = some q) (ho : o ≠ .advance p) :
    (h.step o).exchange.publications[p]? = some q := by
  have hm := h.step_moves o
  generalize (h.step o).exchange = e at hm ⊢
  cases hm with
  | stays | admits _ | dismisses _ | registers _ | takes _ _ _ | drops | shuts _ | clears _ => exact hq
  | publishes => exact (List.getElem?_append_left (List.getElem?_eq_some_iff.mp hq).1).trans hq
  | @advances p' _ ha =>
    have hne : p' ≠ p := fun he => ho (congrArg Op.advance he)
    have moved : ∀ {e₁ : Exchange} {f : Publication → Publication}, e₁.publications = h.exchange.publications →
        (e₁.updatePublication p' f).publications[p]? = some q := fun he =>
      (publication?_update (he ▸ hq)).trans (congrArg some (if_neg hne))
    cases ha with
    | stays | waits _ _ _ _ _ _ _ _ => exact hq
    | refused _ _ _ | unheard _ _ _ _ | begins _ _ _ _ | finishes _ _ _ | proceeds _ _ | cutShort _ _ _
    | skips _ _ _ _ | misses _ _ _ _ _ | accepted _ _ _ _ _ _ => exact moved rfl

/-- What its turn makes of a publication, and when. -/
inductive Turn (e : Exchange) (q : Publication) : Publication → Prop where
  | stays : Turn e q q
  | refused : q.progress = .fresh → e.closed = true → Turn e q { q with progress := .ended (some .closed) }
  | unheard : q.progress = .fresh → e.closed = false → e.registry.lookup q.topic = none →
      Turn e q { q with progress := .ended none }
  | begins {targets : List Nat} : q.progress = .fresh → e.closed = false →
      e.registry.lookup q.topic = some targets →
      Turn e q { q with targets, progress := .sending (q.batch.map (·.onTopic q.topic)) targets }
  | finishes {ahead : List Nat} : q.progress = .sending [] ahead → Turn e q { q with progress := .ended none }
  | proceeds {m : Message} {rest : List Message} : q.progress = .sending (m :: rest) [] →
      Turn e q { q with progress := .sending rest q.targets }
  | cutShort {m : Message} {rest : List Message} {s : Nat} {ahead : List Nat} :
      q.progress = .sending (m :: rest) (s :: ahead) → e.closed = true →
      Turn e q { q with progress := .ended (some .closed) }
  | passes {m : Message} {rest : List Message} {s : Nat} {ahead : List Nat} {missed : Bool} :
      q.progress = .sending (m :: rest) (s :: ahead) →
      Turn e q { q with missed, progress := .sending (m :: rest) ahead }

theorem turn_advance {e : Exchange} (hq : e.publications[p]? = some q) :
    ∃ q', (e.advance p).publications[p]? = some q' ∧ Turn e q q' := by
  have moved : ∀ {e₁ : Exchange} {f : Publication → Publication}, e₁.publications = e.publications →
      Turn e q (f q) → ∃ q', (e₁.updatePublication p f).publications[p]? = some q' ∧ Turn e q q' :=
    fun he hf => ⟨_, publication?_update (he ▸ hq), by rw [if_pos rfl]; exact hf⟩
  have same : ∀ {q₁ : Publication}, e.publications[p]? = some q₁ → q₁ = q := fun h₁ =>
    Option.some.inj (h₁.symm.trans hq)
  have ha := advance_cases e p
  generalize e.advance p = e' at ha
  cases ha with
  | stays | waits _ _ _ _ _ _ _ _ => exact ⟨q, hq, .stays⟩
  | refused h₁ hp hc =>
    cases same h₁
    exact moved rfl (.refused hp hc)
  | unheard h₁ hp hc hl =>
    cases same h₁
    exact moved rfl (.unheard hp hc hl)
  | begins h₁ hp hc hl =>
    cases same h₁
    exact moved rfl (.begins hp hc hl)
  | finishes h₁ hp _ =>
    cases same h₁
    exact moved rfl (.finishes hp)
  | proceeds h₁ hp =>
    cases same h₁
    exact moved rfl (.proceeds hp)
  | cutShort h₁ hp hc =>
    cases same h₁
    exact moved rfl (.cutShort hp hc)
  | skips h₁ hp _ _ | misses h₁ hp _ _ _ | accepted h₁ hp _ _ _ _ =>
    cases same h₁
    exact moved rfl (.passes hp)

theorem turn (hq : h.exchange.publications[p]? = some q) (o : Op) :
    ∃ q', (h.step o).exchange.publications[p]? = some q' ∧ Turn h.exchange q q' := by
  by_cases ho : o = .advance p
  · subst ho
    exact turn_advance hq
  · exact ⟨q, publication_kept hq ho, .stays⟩

theorem publication_ended {r : Option TransportError} (hq : h.exchange.publications[p]? = some q)
    (hp : q.progress = .ended r) (o : Op) : (h.step o).exchange.publications[p]? = some q := by
  obtain ⟨q', hq', ht⟩ := turn hq o
  cases ht with
  | stays => exact hq'
  | refused hp' _ | unheard hp' _ _ | begins hp' _ _ | finishes hp' | proceeds hp' | cutShort hp' _ | passes hp' =>
    exact nomatch hp.symm.trans hp'

/-- Where a publication comes from: it was there before, or has just been begun. -/
theorem publication_back {q' : Publication} (hq' : (h.step o).exchange.publications[p]? = some q') :
    (∃ q, h.exchange.publications[p]? = some q ∧ Turn h.exchange q q') ∨
      p = h.exchange.publications.length ∧ ∃ topic batch, o = .publish topic batch ∧ q' = { topic, batch } := by
  cases hq : h.exchange.publications[p]? with
  | some q =>
    obtain ⟨q₁, hq₁, ht⟩ := turn hq o
    rw [hq'] at hq₁
    cases hq₁
    exact .inl ⟨q, rfl, ht⟩
  | none =>
    -- Only `publish` adds one.
    have hlen : ∀ {e : Exchange}, e.publications.length = h.exchange.publications.length →
        e.publications[p]? = some q' → False := fun hl hs => by
      have hlt := (List.getElem?_eq_some_iff.mp hs).1
      have hle := List.getElem?_eq_none_iff.mp hq
      omega
    have hm := h.step_moves o
    generalize (h.step o).exchange = e at hm hq'
    cases hm with
    | stays | admits _ | dismisses _ | registers _ | takes _ _ _ | drops | shuts _ | clears _ =>
      exact (hlen rfl hq').elim
    | @publishes topic batch =>
      rcases getElem?_concat_cases (l := h.exchange.publications) hq' with hs | ⟨hp, rfl⟩
      · exact (hlen rfl hs).elim
      · exact .inr ⟨hp, topic, batch, rfl, rfl⟩
    | advances ha =>
      refine (hlen ?_ hq').elim
      cases ha with
      | stays | waits _ _ _ _ _ _ _ _ => rfl
      | refused _ _ _ | unheard _ _ _ _ | begins _ _ _ _ | finishes _ _ _ | proceeds _ _ | cutShort _ _ _
      | skips _ _ _ _ | misses _ _ _ _ _ | accepted _ _ _ _ _ _ => exact List.length_modify ..

/-! ### Lists of subscriptions -/

/-- What an operation makes of the lists of an exchange. -/
inductive Lists (e : Exchange) : Exchange → Prop where
  | stays {e' : Exchange} : e'.registry = e.registry → Lists e e'
  | enlists {e' : Exchange} {topic : String} : e'.registry = e.registry.enlist topic e.subscriptions.length →
      Lists e e'
  | prunes {e' : Exchange} {topic : String} {keep : Nat → Bool} : e'.registry = e.registry.prune topic keep →
      Lists e e'
  | clears {e' : Exchange} : e'.registry = [] → Lists e e'

theorem lists (h : Hub) (o : Op) : Lists h.exchange (h.step o).exchange := by
  have hm := h.step_moves o
  generalize (h.step o).exchange = e at hm ⊢
  cases hm with
  | stays | admits _ | dismisses _ | publishes | takes _ _ _ | drops | shuts _ => exact .stays rfl
  | registers _ => exact .enlists rfl
  | clears _ => exact .clears rfl
  | advances ha =>
    obtain hr | ⟨topic, hr⟩ := ha.registry
    · exact .stays hr
    · exact .prunes hr

/-! ### Closing -/

/-- Only `close` closes an exchange. -/
theorem closed_kept (h : Hub) (ho : o ≠ .close) : (h.step o).exchange.closed = h.exchange.closed := by
  have hm := h.step_moves o
  generalize (h.step o).exchange = e at hm ⊢
  cases hm with
  | shuts _ => exact absurd rfl ho
  | advances ha => cases ha <;> rfl
  | stays | admits _ | dismisses _ | registers _ | publishes | takes _ _ _ | drops | clears _ => rfl

/-- The lists are to be cleared from when an exchange is closed. -/
theorem clearing_back (hc : (h.step o).exchange.clearing = true) :
    h.exchange.clearing = true ∨ o = .close ∧ h.exchange.closed = false := by
  have hm := h.step_moves o
  generalize (h.step o).exchange = e at hm hc
  cases hm with
  | shuts hopen => exact .inr ⟨rfl, hopen⟩
  | clears hclearing => exact .inl hclearing
  | advances ha => exact .inl (ha.calls.2 ▸ hc)
  | stays | admits _ | dismisses _ | registers _ | publishes | takes _ _ _ | drops => exact .inl hc

/-- What a subscription has accepted it keeps, and what it accepts comes from the publication that moves. -/
theorem Changes.accepted (hc : Changes h i s o s') : s'.accepted = s.accepted ∨
    ∃ p q m rest ahead, o = .advance p ∧ h.exchange.publications[p]? = some q ∧
      q.progress = .sending (m :: rest) (i :: ahead) ∧ h.exchange.closed = false ∧ s'.dropped = false ∧
      s'.accepted = s.accepted ++ [(p, m)] := by
  cases hc with
  | stays | awaits _ _ _ _ _ | drops => exact .inl rfl
  | accepts hq hp hc hd _ => exact .inr ⟨_, _, _, _, _, rfl, hq, hp, hc, hd, rfl⟩
  | withdraws _ =>
    refine .inl ?_
    unfold Subscription.withdraw
    split <;> simp
  | takes _ _ => exact .inl (by simp [Subscription.take])

/-! ### Tokens -/

theorem step_cancelled (o : Op) {t : Token} (ht : h.tokens.isCancelled t = true) :
    (h.step o).tokens.isCancelled t = true := by
  have hl : t < h.tokens.next := Nat.lt_of_not_le fun hle => by
    rw [Tokens.isCancelled_of_next_le hle] at ht
    cases ht
  cases o with
  | token => exact (Tokens.isCancelled_fresh h.tokens t).trans ht
  | derive p =>
    show (h.tokens.derive p).isCancelled t = true
    rw [Tokens.isCancelled_derive, if_neg (Nat.ne_of_lt hl), ht]
  | cancel p => exact Tokens.isCancelled_cancel_of_isCancelled p ht
  | subscribe p topic => rwa [tokens_subscribe]
  | register _ | publish _ _ | advance _ | poll _ | drop _ | close | clear => exact ht

theorem run_cancelled (ops : List Op) {t : Token} (ht : h.tokens.isCancelled t = true) :
    (h.run ops).tokens.isCancelled t = true := by
  induction ops generalizing h with
  | nil => exact ht
  | cons o ops ih => exact ih (step_cancelled o ht)

theorem step_next_le (h : Hub) (o : Op) : h.tokens.next ≤ (h.step o).tokens.next := by
  cases o with
  | token | derive p => simp [step, Tokens.fresh, Tokens.derive, Tokens.next]
  | cancel p => simp [step, Tokens.cancel, Tokens.next]
  | subscribe p topic => exact Nat.le_of_eq (congrArg Tokens.next (tokens_subscribe h p topic)).symm
  | register _ | publish _ _ | advance _ | poll _ | drop _ | close | clear => exact Nat.le_refl _

theorem run_next_le (h : Hub) (ops : List Op) : h.tokens.next ≤ (h.run ops).tokens.next := by
  induction ops generalizing h with
  | nil => exact Nat.le_refl _
  | cons o ops ih => exact Nat.le_trans (step_next_le h o) (ih (h.step o))

theorem run_tokens_closed (ops : List Op) (hc : h.tokens.Closed) : (h.run ops).tokens.Closed := by
  induction ops generalizing h with
  | nil => exact hc
  | cons o ops ih =>
    refine ih (h := h.step o) ?_
    cases o with
    | token => exact hc.fresh
    | derive t => exact hc.derive t
    | cancel t => exact hc.cancel t
    | subscribe t topic => rwa [tokens_subscribe]
    | register _ | publish _ _ | advance _ | poll _ | drop _ | close | clear => exact hc

/-- A token stays below those that it was derived from. -/
theorem run_below (ops : List Op) {t i : Token} (hi : i < h.tokens.next) :
    (h.run ops).tokens.below t i = h.tokens.below t i := by
  induction ops generalizing h with
  | nil => rfl
  | cons o ops ih =>
    refine (ih (h := h.step o) (Nat.lt_of_lt_of_le hi (step_next_le h o))).trans ?_
    cases o with
    | token | derive _ => exact Tokens.below_append hi
    | cancel _ => exact Tokens.below_cancel
    | subscribe t topic => rw [tokens_subscribe]
    | register _ | publish _ _ | advance _ | poll _ | drop _ | close | clear => rfl

end Hub
end Relay
