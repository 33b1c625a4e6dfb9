import Relay.Proofs.Exchange.Changes

/-! Who is listed. An open exchange lists every subscription whose reader is there under its topic, once;
    pruning a list takes out only subscriptions whose reader has gone. When the lists have been cleared, the
    same holds of those that are registered later. -/

namespace Relay

namespace Registry
variable {r : Registry} {topic t : String} {l : List Nat} {i : Nat}

theorem lookup_enlist {s : Nat} : (r.enlist topic s).lookup t =
    if t = topic then some ((r.lookup topic).getD [] ++ [s]) else r.lookup t := by
  induction r with
  | nil =>
    by_cases ht : t = topic
    · simp [enlist, ht]
    · simp [enlist, List.lookup_cons, ht, beq_eq_false_iff_ne.mpr ht]
  | cons head rest ih =>
    obtain ⟨t', l⟩ := head
    unfold enlist
    by_cases ht' : t' = topic
    · subst ht'
      by_cases ht : t = t'
      · simp [ht]
      · simp [List.lookup_cons, ht, beq_eq_false_iff_ne.mpr ht]
    · have hne : (topic == t') = false := beq_eq_false_iff_ne.mpr (Ne.symm ht')
      rw [if_neg ht', List.lookup_cons, List.lookup_cons, ih, List.lookup_cons, hne]
      by_cases ht : t = topic
      · subst ht
        simp [hne]
      · simp [ht]

/-- Pruning spares whom it is to keep. -/
theorem lookup_prune {keep : Nat → Bool} (h : r.lookup t = some l) (hi : i ∈ l) (hk : keep i = true) :
    ∃ l', (r.prune topic keep).lookup t = some l' ∧ i ∈ l' := by
  induction r with
  | nil => cases h
  | cons head rest ih =>
    obtain ⟨t', l₀⟩ := head
    rw [List.lookup_cons] at h
    unfold prune
    by_cases ht : t = t'
    · subst ht
      rw [beq_self_eq_true, Option.some.injEq] at h
      subst h
      by_cases htopic : t = topic
      · rw [if_pos htopic]
        have hmem : i ∈ l₀.filter keep := List.mem_filter.mpr ⟨hi, hk⟩
        split
        · rename_i he
          rw [he] at hmem
          cases hmem
        · exact ⟨_, by rw [List.lookup_cons, beq_self_eq_true], hmem⟩
      · rw [if_neg htopic]
        exact ⟨l₀, by rw [List.lookup_cons, beq_self_eq_true], hi⟩
    · have hne : (t == t') = false := beq_eq_false_iff_ne.mpr ht
      rw [hne] at h
      by_cases htopic : t' = topic
      · rw [if_pos htopic]
        split
        · exact ⟨l, h, hi⟩
        · exact ⟨l, by rw [List.lookup_cons, hne]; exact h, hi⟩
      · rw [if_neg htopic]
        obtain ⟨l', hl', hi'⟩ := ih h
        exact ⟨l', by rw [List.lookup_cons, hne]; exact hl', hi'⟩

end Registry

namespace Exchange
variable {e e' : Exchange} {p : Nat}

/-- From the `n`-th on, every subscription whose reader is there is listed, and no earlier one is. -/
structure ListsFrom (e : Exchange) (n : Nat) : Prop where
  present : ∀ {i : Nat} {sub : Subscription}, n ≤ i → e.subscriptions[i]? = some sub → sub.dropped = false →
    ∃ l, e.registry.lookup sub.topic = some l ∧ i ∈ l
  since : ∀ entry ∈ e.registry, ∀ i ∈ entry.2, n ≤ i

namespace ListsFrom
variable {n : Nat}

theorem updateSubscription {s : Nat} {f : Subscription → Subscription} (h : e.ListsFrom n)
    (hf : ∀ sub, e.subscriptions[s]? = some sub →
      (f sub).topic = sub.topic ∧ (sub.dropped = true → (f sub).dropped = true)) :
    (e.updateSubscription s f).ListsFrom n where
  present {i sub'} hn hs' hd' := by
    obtain ⟨sub, hs, rfl⟩ := of_subscription?_update hs'
    split at hd'
    · rename_i hi
      obtain ⟨htopic, hdropped⟩ := hf sub (hi ▸ hs)
      rw [if_pos hi, htopic]
      refine h.present hn hs (Bool.eq_false_iff.mpr fun hd => ?_)
      rw [hdropped hd] at hd'
      cases hd'
    · rename_i hi
      rw [if_neg hi]
      exact h.present hn hs hd'
  since := h.since

theorem of_eq (h : e.ListsFrom n) (hs : e'.subscriptions = e.subscriptions) (hr : e'.registry = e.registry) :
    e'.ListsFrom n :=
  ⟨fun hn hsub hd => by rw [hr]; exact h.present hn (hs ▸ hsub) hd, hr ▸ h.since⟩

theorem prune {topic : String} (h : e.ListsFrom n) :
    ({ e with registry := e.registry.prune topic fun s => !e.isDropped s } : Exchange).ListsFrom n where
  present {i sub} hn hs hd := by
    obtain ⟨l, hl, hi⟩ := h.present hn hs hd
    refine Registry.lookup_prune hl hi ?_
    show (!e.isDropped i) = true
    rw [isDropped, show e.subscriptions[i]? = some sub from hs]
    simp [hd]
  since entry hm i hi := by
    obtain ⟨l, hl, hs⟩ := Registry.mem_prune hm
    exact h.since _ hl i (hs.subset hi)

theorem advance (h : e.ListsFrom n) (ha : e.Advance p e') : e'.ListsFrom n := by
  cases ha with
  | stays => exact h
  | refused _ _ _ | unheard _ _ _ _ | begins _ _ _ _ | proceeds _ _ | skips _ _ _ _ | misses _ _ _ _ _ =>
    exact h.of_eq rfl rfl
  | @finishes q ahead registry _ _ hr =>
    have hl : ({ e with registry } : Exchange).ListsFrom n := by
      rw [hr]
      split
      · exact h.prune
      · exact h
    exact hl.of_eq rfl rfl
  | @cutShort q m rest s ahead _ _ _ =>
    have hl : (e.updateSubscription s (·.withdraw p)).ListsFrom n := h.updateSubscription fun sub _ => by
      have hw : sub.Fed (sub.withdraw p) := .withdraw
      exact ⟨hw.topic, hw.dropped.trans⟩
    exact hl.of_eq rfl rfl
  | @accepted q m rest s ahead sub _ _ _ _ _ _ =>
    have hl : (e.updateSubscription s (·.accept p m)).ListsFrom n := h.updateSubscription fun _ _ => ⟨rfl, id⟩
    exact hl.of_eq rfl rfl
  | waits _ _ _ _ _ _ _ _ => exact h.updateSubscription fun _ _ => ⟨rfl, id⟩

theorem registered {k : Nat} {a : Admission} (h : e.ListsFrom n) (hn : n ≤ e.subscriptions.length) :
    (e.registered k a).ListsFrom n where
  present {i sub} hi hsub hd := by
    show ∃ l, (e.registry.enlist a.topic _).lookup sub.topic = some l ∧ i ∈ l
    rw [Registry.lookup_enlist]
    rcases getElem?_concat_cases hsub with hsub | ⟨rfl, rfl⟩
    · obtain ⟨l, hlookup, hi⟩ := h.present hi hsub hd
      by_cases ht : sub.topic = a.topic
      · rw [if_pos ht]
        refine ⟨_, rfl, List.mem_append_left _ ?_⟩
        rw [← ht, hlookup]
        exact hi
      · rw [if_neg ht]
        exact ⟨l, hlookup, hi⟩
    · rw [if_pos rfl]
      exact ⟨_, rfl, List.mem_append_right _ List.mem_cons_self⟩
  since entry hm i hi := by
    rcases Registry.mem_enlist hm with hm | ⟨l, hl, rfl⟩
    · exact h.since entry hm i hi
    · rcases List.mem_append.mp hi with hi | hi
      · rcases hl with rfl | hl
        · cases hi
        · exact h.since _ hl i hi
      · rwa [List.mem_singleton.mp hi]

/-- Only the clearing of the lists makes an end of that. -/
theorem step {h : Hub} {o : Hub.Op} (hl : h.exchange.ListsFrom n) (hn : n ≤ h.exchange.subscriptions.length)
    (ho : o = .clear → h.exchange.clearing = false) : (h.step o).exchange.ListsFrom n := by
  have hm := h.step_moves o
  generalize (h.step o).exchange = e' at hm ⊢
  cases hm with
  | stays => exact hl
  | admits _ | dismisses _ | publishes | shuts _ => exact hl.of_eq rfl rfl
  | registers _ => exact hl.registered hn
  | advances ha => exact hl.advance ha
  | takes _ _ _ => exact hl.updateSubscription fun _ _ => by simp [Subscription.take]
  | drops => exact hl.updateSubscription fun _ _ => ⟨rfl, fun _ => rfl⟩
  | clears hc => cases hc.symm.trans (ho rfl)

end ListsFrom

/-- An open exchange lists every subscription whose reader is there. None is listed twice. -/
structure Listed (e : Exchange) : Prop where
  everyone : e.closed = false → e.ListsFrom 0
  distinct : ∀ entry ∈ e.registry, entry.2.Nodup
  clearing : e.clearing = true → e.closed = true

namespace Listed

theorem present (h : e.Listed) (hc : e.closed = false) {i : Nat} {sub : Subscription}
    (hs : e.subscriptions[i]? = some sub) (hd : sub.dropped = false) :
    ∃ l, e.registry.lookup sub.topic = some l ∧ i ∈ l :=
  (h.everyone hc).present (Nat.zero_le i) hs hd

/-- The number of a new subscription is none of those that are listed. -/
theorem nodup_enlist (h : e.Listed) (hs : e.Sound) {topic : String} {entry : String × List Nat}
    (hm : entry ∈ e.registry.enlist topic e.subscriptions.length) : entry.2.Nodup := by
  rcases Registry.mem_enlist hm with hm | ⟨l, rfl | hl, rfl⟩
  · exact h.distinct _ hm
  · simp
  · refine List.nodup_append.mpr ⟨h.distinct _ hl, by simp, fun i hi j hj => ?_⟩
    obtain rfl := List.mem_singleton.mp hj
    obtain ⟨sub, hsub, -⟩ := hs.listed _ hl i hi
    exact Nat.ne_of_lt (List.getElem?_eq_some_iff.mp hsub).1

theorem step {h : Hub} (hl : h.exchange.Listed) (hs : h.exchange.Sound) (o : Hub.Op) :
    (h.step o).exchange.Listed where
  everyone hc := by
    have hopen : h.exchange.closed = false := Bool.eq_false_iff.mpr fun hclosed =>
      nomatch hc.symm.trans ((Hub.step_evolves h o).closed hclosed)
    exact (hl.everyone hopen).step (Nat.zero_le _) fun _ =>
      Bool.eq_false_iff.mpr fun hclearing => nomatch hopen.symm.trans (hl.clearing hclearing)
  distinct entry hm := by
    cases Hub.lists h o with
    | stays hr =>
      rw [hr] at hm
      exact hl.distinct entry hm
    | enlists hr =>
      rw [hr] at hm
      exact hl.nodup_enlist hs hm
    | prunes hr =>
      rw [hr] at hm
      obtain ⟨l, hl', hsub⟩ := Registry.mem_prune hm
      exact hsub.nodup (hl.distinct _ hl')
    | clears hr =>
      rw [hr] at hm
      cases hm
  clearing hc := by
    rcases Hub.clearing_back hc with hc | ⟨rfl, -⟩
    · exact (Hub.step_evolves h o).closed (hl.clearing hc)
    · exact Hub.closed_shut h.exchange

end Listed
end Exchange
end Relay
