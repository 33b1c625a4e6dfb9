import Relay.Proofs.Exchange.Listing

/-! Fan-out. A publication goes to the subscriptions that are listed when it begins. They get its batch
    message by message, each in order and all at the same pace, and no other subscription gets anything of
    it. -/

namespace Relay

/-- What a subscription has accepted of a publication. -/
def Subscription.acceptedOf (s : Subscription) (p : Nat) : List Message :=
  (s.accepted.filter (·.1 == p)).map (·.2)

theorem Subscription.acceptedOf_accept {s : Subscription} {p p' : Nat} {m : Message} :
    (s.accept p m).acceptedOf p' = if p = p' then s.acceptedOf p' ++ [m] else s.acceptedOf p' := by
  by_cases hp : p = p'
  · simp [acceptedOf, accept, hp]
  · simp [acceptedOf, accept, hp]

/-- The messages of a publication as they arrive. -/
def Publication.messages (q : Publication) : List Message := q.batch.map (·.onTopic q.topic)

/-- Subscription `i`, whose reader is there, has got as much of a publication as it should by now. -/
inductive Publication.Reaches (q : Publication) (i : Nat) : List Message → Prop where
  | spared : i ∉ q.targets → Reaches q i []
  | behind {sent rest : List Message} {ahead : List Nat} : q.progress = .sending rest ahead → i ∈ ahead →
      sent ++ rest = q.messages → Reaches q i sent
  | abreast {sent rest : List Message} {m : Message} {ahead : List Nat} : i ∈ q.targets →
      q.progress = .sending (m :: rest) ahead → i ∉ ahead → sent ++ m :: rest = q.messages →
      Reaches q i (sent ++ [m])
  | through {ahead : List Nat} : i ∈ q.targets → q.progress = .sending [] ahead → Reaches q i q.messages
  | done : i ∈ q.targets → q.progress = .ended none → Reaches q i q.messages
  | cutShort {error : TransportError} {got : List Message} : q.progress = .ended (some error) → Reaches q i got

namespace Publication.Reaches
variable {q q' : Publication} {i s : Nat} {got rest : List Message} {m : Message} {ahead : List Nat}

theorem fresh (h : q.Reaches i got) (hp : q.progress = .fresh) : got = [] := by
  cases h with
  | spared _ => rfl
  | behind hpr _ _ | abreast _ hpr _ _ | through _ hpr | done _ hpr | cutShort hpr =>
    rw [hp] at hpr
    cases hpr

/-- When a message has been sent to all targets, they have it. -/
theorem proceeds (h : q.Reaches i got) (hp : q.progress = .sending (m :: rest) []) :
    i ∉ q.targets ∧ got = [] ∨ i ∈ q.targets ∧ got ++ rest = q.messages := by
  cases h with
  | spared hi => exact .inl ⟨hi, rfl⟩
  | behind hpr hi _ =>
    rw [hp] at hpr
    cases hpr
    cases hi
  | abreast hi hpr _ hsent =>
    rw [hp] at hpr
    cases hpr
    exact .inr ⟨hi, by rw [List.append_assoc]; exact hsent⟩
  | through _ hpr | done _ hpr | cutShort hpr =>
    rw [hp] at hpr
    cases hpr

theorem finishes (h : q.Reaches i got) (hp : q.progress = .sending [] ahead) (ha : ∀ i ∈ ahead, i ∈ q.targets) :
    i ∉ q.targets ∧ got = [] ∨ i ∈ q.targets ∧ got = q.messages := by
  cases h with
  | spared hi => exact .inl ⟨hi, rfl⟩
  | behind hpr hi hsent =>
    rw [hp] at hpr
    cases hpr
    exact .inr ⟨ha i hi, by rw [← hsent, List.append_nil]⟩
  | through hi _ | done hi _ => exact .inr ⟨hi, rfl⟩
  | abreast _ hpr _ _ | cutShort hpr =>
    rw [hp] at hpr
    cases hpr

theorem ended (h : q.Reaches i got) (hp : q.progress = .ended none) :
    i ∉ q.targets ∧ got = [] ∨ i ∈ q.targets ∧ got = q.messages := by
  cases h with
  | spared hi => exact .inl ⟨hi, rfl⟩
  | through hi _ | done hi _ => exact .inr ⟨hi, rfl⟩
  | behind hpr _ _ | abreast _ hpr _ _ | cutShort hpr =>
    rw [hp] at hpr
    cases hpr

/-- The publication moves past subscription `s`, which makes no difference to the others. -/
theorem passes (h : q.Reaches i got) (hp : q.progress = .sending (m :: rest) (s :: ahead)) (hi : i ≠ s)
    (ht : q'.targets = q.targets) (hm : q'.messages = q.messages) (hp' : q'.progress = .sending (m :: rest) ahead) :
    q'.Reaches i got := by
  cases h with
  | spared hn => exact .spared (ht ▸ hn)
  | behind hpr hn hsent =>
    rw [hp] at hpr
    cases hpr
    exact .behind hp' (List.mem_of_ne_of_mem hi hn) (hm ▸ hsent)
  | abreast hmem hpr hn hsent =>
    rw [hp] at hpr
    cases hpr
    exact .abreast (ht ▸ hmem) hp' (fun hn' => hn (List.mem_cons_of_mem _ hn')) (hm ▸ hsent)
  | through _ hpr | done _ hpr | cutShort hpr =>
    rw [hp] at hpr
    cases hpr

/-- The publication gives its message to subscription `s`. -/
theorem accepts (h : q.Reaches s got) (hp : q.progress = .sending (m :: rest) (s :: ahead)) (hs : s ∈ q.targets)
    (hn : s ∉ ahead) (ht : q'.targets = q.targets) (hm : q'.messages = q.messages)
    (hp' : q'.progress = .sending (m :: rest) ahead) : q'.Reaches s (got ++ [m]) := by
  cases h with
  | spared hi => exact absurd hs hi
  | behind hpr hi hsent =>
    rw [hp] at hpr
    cases hpr
    exact .abreast (ht ▸ hs) hp' hn (hm ▸ hsent)
  | abreast _ hpr hi _ =>
    rw [hp] at hpr
    cases hpr
    exact absurd List.mem_cons_self hi
  | through _ hpr | done _ hpr | cutShort hpr =>
    rw [hp] at hpr
    cases hpr

end Publication.Reaches

namespace Exchange
variable {e e' : Exchange} {p i : Nat}

/-! ### Who gets what -/

/-- Every subscription whose reader is there has got as much of every publication as it should by now. -/
structure Fanned (e : Exchange) : Prop where
  reaches : ∀ {p i : Nat} {q : Publication} {sub : Subscription}, e.publications[p]? = some q →
    e.subscriptions[i]? = some sub → sub.dropped = false → q.Reaches i (sub.acceptedOf p)
  distinct : ∀ {p : Nat} {q : Publication}, e.publications[p]? = some q → q.targets.Nodup
  fresh : ∀ {p : Nat} {q : Publication}, e.publications[p]? = some q → q.progress = .fresh → q.targets = []
  unborn : ∀ {p i : Nat} {sub : Subscription}, e.publications.length ≤ p → e.subscriptions[i]? = some sub →
    sub.acceptedOf p = []

namespace Fanned

theorem of_eq (h : e.Fanned) (hs : e'.subscriptions = e.subscriptions) (hp : e'.publications = e.publications) :
    e'.Fanned :=
  ⟨fun hq hsub hd => h.reaches (hp ▸ hq) (hs ▸ hsub) hd, fun hq => h.distinct (hp ▸ hq), fun hq => h.fresh (hp ▸ hq),
    fun hl hsub => h.unborn (hp ▸ hl) (hs ▸ hsub)⟩

theorem updateSubscription {s : Nat} {f : Subscription → Subscription} (h : e.Fanned)
    (hf : ∀ sub, e.subscriptions[s]? = some sub →
      (f sub).accepted = sub.accepted ∧ (sub.dropped = true → (f sub).dropped = true)) :
    (e.updateSubscription s f).Fanned := by
  have back : ∀ {i : Nat} {sub' : Subscription}, (e.updateSubscription s f).subscriptions[i]? = some sub' →
      ∃ sub, e.subscriptions[i]? = some sub ∧ (∀ p, sub'.acceptedOf p = sub.acceptedOf p) ∧
        (sub'.dropped = false → sub.dropped = false) := by
    intro i sub' hs'
    obtain ⟨sub, hs, rfl⟩ := of_subscription?_update hs'
    refine ⟨sub, hs, ?_⟩
    by_cases hi : s = i
    · rw [if_pos hi]
      obtain ⟨ha, hd⟩ := hf sub (hi ▸ hs)
      refine ⟨fun p => by rw [Subscription.acceptedOf, ha]; rfl, fun hd' => Bool.eq_false_iff.mpr fun h => ?_⟩
      rw [hd h] at hd'
      cases hd'
    · rw [if_neg hi]
      exact ⟨fun _ => rfl, id⟩
  refine ⟨fun hq hs' hd' => ?_, h.distinct, h.fresh, fun hl hs' => ?_⟩
  · obtain ⟨sub, hs, ha, hd⟩ := back hs'
    rw [ha]
    exact h.reaches hq hs (hd hd')
  · obtain ⟨sub, hs, ha, -⟩ := back hs'
    rw [ha]
    exact h.unborn hl hs

theorem updatePublication {f : Publication → Publication} {q : Publication} (h : e.Fanned)
    (hq : e.publications[p]? = some q) (hd : (f q).targets.Nodup) (hn : (f q).progress ≠ .fresh)
    (hr : ∀ i sub, e.subscriptions[i]? = some sub → sub.dropped = false → q.Reaches i (sub.acceptedOf p) →
      (f q).Reaches i (sub.acceptedOf p)) : (e.updatePublication p f).Fanned := by
  refine ⟨fun hq' hs hdrop => ?_, fun hq' => ?_, fun hq' hf => ?_, fun hl hs => h.unborn ?_ hs⟩
  · rcases publication?_cases hq hq' with ⟨rfl, rfl⟩ | ⟨-, hq'⟩
    · exact hr _ _ hs hdrop (h.reaches hq hs hdrop)
    · exact h.reaches hq' hs hdrop
  · rcases publication?_cases hq hq' with ⟨rfl, rfl⟩ | ⟨-, hq'⟩
    · exact hd
    · exact h.distinct hq'
  · rcases publication?_cases hq hq' with ⟨rfl, rfl⟩ | ⟨-, hq'⟩
    · exact absurd hf hn
    · exact h.fresh hq' hf
  · simpa [Exchange.updatePublication] using hl

/-- The publication moves on and has the same targets. -/
theorem moves {f : Publication → Publication} {q : Publication} (h : e.Fanned) (hq : e.publications[p]? = some q)
    (ht : (f q).targets = q.targets) (hn : (f q).progress ≠ .fresh)
    (hr : ∀ i sub, e.subscriptions[i]? = some sub → sub.dropped = false → q.Reaches i (sub.acceptedOf p) →
      (f q).Reaches i (sub.acceptedOf p)) : (e.updatePublication p f).Fanned :=
  h.updatePublication hq (ht ▸ h.distinct hq) hn hr

/-- The publication gives its message to a subscription and moves on to the next one. -/
theorem accepts {q : Publication} {m : Message} {rest : List Message} {s : Nat} {ahead : List Nat}
    (h : e.Fanned) (hsound : e.Sound) (hq : e.publications[p]? = some q)
    (hp : q.progress = .sending (m :: rest) (s :: ahead)) :
    ((e.updateSubscription s (·.accept p m)).setProgress p (.sending (m :: rest) ahead)).Fanned := by
  obtain ⟨hrest, hahead⟩ := (hsound.addressed hq).sending hp
  have hs : s ∈ q.targets := hahead.mem List.mem_cons_self
  have hn : s ∉ ahead := (List.nodup_cons.mp (hahead.sublist.nodup (h.distinct hq))).1
  have hsub' : ∀ {i : Nat} {sub' : Subscription},
      (e.updateSubscription s (·.accept p m)).subscriptions[i]? = some sub' →
      ∃ sub, e.subscriptions[i]? = some sub ∧ sub'.dropped = sub.dropped ∧
        ∀ p', sub'.acceptedOf p' = if p = p' ∧ i = s then sub.acceptedOf p' ++ [m] else sub.acceptedOf p' := by
    intro i sub' hs'
    obtain ⟨sub, hs, rfl⟩ := of_subscription?_update hs'
    refine ⟨sub, hs, ?_⟩
    by_cases hi : s = i
    · rw [if_pos hi]
      refine ⟨rfl, fun p' => ?_⟩
      rw [Subscription.acceptedOf_accept]
      simp [hi]
    · rw [if_neg hi]
      exact ⟨rfl, fun p' => by rw [if_neg fun hc => hi hc.2.symm]⟩
  refine ⟨fun {p' i q' sub'} hpub hsub hd => ?_, fun hpub => ?_, fun hpub hf => ?_, fun {p' i sub'} hl hsub => ?_⟩
  · obtain ⟨sub, hold, hdrop, hof⟩ := hsub' hsub
    rw [hof]
    rcases publication?_cases hq hpub with ⟨rfl, rfl⟩ | ⟨hne, hpub⟩
    · have hr := h.reaches hq hold (hdrop ▸ hd)
      by_cases hi : i = s
      · subst hi
        rw [if_pos ⟨rfl, rfl⟩]
        exact hr.accepts hp hs hn rfl rfl rfl
      · rw [if_neg fun hc => hi hc.2]
        exact hr.passes hp hi rfl rfl rfl
    · rw [if_neg fun hc => hne hc.1]
      exact h.reaches hpub hold (hdrop ▸ hd)
  · rcases publication?_cases hq hpub with ⟨-, rfl⟩ | ⟨-, hpub⟩
    · show q.targets.Nodup
      exact h.distinct hq
    · exact h.distinct hpub
  · rcases publication?_cases hq hpub with ⟨-, rfl⟩ | ⟨-, hpub⟩
    · cases hf
    · exact h.fresh hpub hf
  · obtain ⟨sub, hsub, -, hof⟩ := hsub' hsub
    have hl : e.publications.length ≤ p' := by
      simpa [setProgress, Exchange.updatePublication, Exchange.updateSubscription] using hl
    have hne : p ≠ p' := Nat.ne_of_lt (Nat.lt_of_lt_of_le (List.getElem?_eq_some_iff.mp hq).1 hl)
    rw [hof, if_neg fun hc => hne hc.1]
    exact h.unborn hl hsub

theorem advance (h : e.Fanned) (hl : e.Listed) (hs : e.Sound) (ha : e.Advance p e') : e'.Fanned := by
  cases ha with
  | stays => exact h
  | @refused q hq hp _ =>
    exact h.moves hq rfl nofun fun _ _ _ _ _ => .cutShort rfl
  | @unheard q hq hp _ _ =>
    refine h.moves hq rfl nofun fun i sub _ _ hr => ?_
    rw [hr.fresh hp]
    refine .spared ?_
    show i ∉ q.targets
    rw [h.fresh hq hp]
    exact List.not_mem_nil
  | @begins q targets hq hp _ hlookup =>
    refine h.updatePublication hq (hl.distinct _ (Registry.mem_of_lookup hlookup)) nofun fun i sub _ _ hr => ?_
    rw [hr.fresh hp]
    by_cases hi : i ∈ targets
    · exact .behind rfl hi (List.nil_append _)
    · exact .spared hi
  | @finishes q ahead registry hq hp _ =>
    have he : ({ e with registry } : Exchange).Fanned := h.of_eq rfl rfl
    refine he.moves hq rfl nofun fun i sub _ _ hr => ?_
    rcases hr.finishes hp fun i hi => ((hs.addressed hq).sending hp).2.mem hi with ⟨hi, hgot⟩ | ⟨hi, hgot⟩
    · rw [hgot]
      exact .spared hi
    · rw [hgot]
      exact .done hi rfl
  | @proceeds q m rest hq hp =>
    refine h.moves hq rfl nofun fun i sub _ _ hr => ?_
    rcases hr.proceeds hp with ⟨hi, hgot⟩ | ⟨hi, hgot⟩
    · rw [hgot]
      exact .spared hi
    · exact .behind rfl hi hgot
  | @cutShort q m rest s ahead hq hp _ =>
    have he : (e.updateSubscription s (·.withdraw p)).Fanned := h.updateSubscription fun sub _ => by
      have hw : sub.Fed (sub.withdraw p) := .withdraw
      refine ⟨?_, hw.dropped.trans⟩
      unfold Subscription.withdraw
      split <;> simp
    exact he.moves hq rfl nofun fun _ _ _ _ _ => .cutShort rfl
  | @skips q m rest s ahead hq hp _ hnone =>
    refine h.moves hq rfl nofun fun i sub hsub _ hr => ?_
    refine hr.passes hp ?_ rfl rfl rfl
    rintro rfl
    rw [hnone] at hsub
    cases hsub
  | @misses q m rest s ahead sub hq hp _ hs' hdropped =>
    refine h.moves hq rfl nofun fun i sub' hsub hd hr => ?_
    refine hr.passes hp ?_ rfl rfl rfl
    rintro rfl
    rw [hs'] at hsub
    cases hsub
    rw [hdropped] at hd
    cases hd
  | accepted hq hp _ _ _ _ => exact h.accepts hs hq hp
  | waits _ _ _ _ _ _ _ _ => exact h.updateSubscription fun _ _ => ⟨rfl, id⟩

theorem step {h : Hub} (hf : h.exchange.Fanned) (hl : h.exchange.Listed) (hs : h.exchange.Sound) (o : Hub.Op) :
    (h.step o).exchange.Fanned := by
  have hm := h.step_moves o
  generalize (h.step o).exchange = e' at hm ⊢
  cases hm with
  | stays => exact hf
  | admits _ | dismisses _ | shuts _ | clears _ => exact hf.of_eq rfl rfl
  | registers _ =>
    refine ⟨fun hq hsub hd => ?_, hf.distinct, hf.fresh, fun hle hsub => ?_⟩
    · rcases getElem?_concat_cases hsub with hsub | ⟨rfl, rfl⟩
      · exact hf.reaches hq hsub hd
      · refine .spared fun hi => ?_
        obtain ⟨sub, hsub, -⟩ := (hs.addressed hq).targets _ hi
        exact Nat.lt_irrefl _ (List.getElem?_eq_some_iff.mp hsub).1
    · rcases getElem?_concat_cases hsub with hsub | ⟨-, rfl⟩
      · exact hf.unborn hle hsub
      · rfl
  | publishes =>
    refine ⟨fun hq hsub hd => ?_, fun hq => ?_, fun hq hp => ?_, fun hle hsub => hf.unborn ?_ hsub⟩
    · rcases getElem?_concat_cases (l := h.exchange.publications) hq with hq | ⟨rfl, rfl⟩
      · exact hf.reaches hq hsub hd
      · rw [hf.unborn (Nat.le_refl _) hsub]
        exact .spared List.not_mem_nil
    · rcases getElem?_concat_cases (l := h.exchange.publications) hq with hq | ⟨-, rfl⟩
      · exact hf.distinct hq
      · exact List.nodup_nil
    · rcases getElem?_concat_cases (l := h.exchange.publications) hq with hq | ⟨-, rfl⟩
      · exact hf.fresh hq hp
      · rfl
    · rw [List.length_append] at hle
      exact Nat.le_of_add_right_le hle
  | advances ha => exact hf.advance hl hs ha
  | takes _ _ _ => exact hf.updateSubscription fun _ _ => by simp [Subscription.take]
  | drops => exact hf.updateSubscription fun _ _ => ⟨rfl, fun _ => rfl⟩

end Fanned
/-! ### Whom a publication goes to -/

/-- Where a publication gets its targets: from the list under its topic, when it begins. -/
theorem Advance.targets {p' : Nat} {q : Publication} (ha : e.Advance p' e') (hq : e.publications[p]? = some q) :
    ∃ q', e'.publications[p]? = some q' ∧ q'.topic = q.topic ∧ (q' = q ∨
      q.progress ≠ .fresh ∧ q'.targets = q.targets ∨
      q.progress = .fresh ∧ (e.closed = true ∨ ∀ l, e.registry.lookup q.topic = some l → q'.targets = l)) := by
  -- Only the publication that moves changes, and most of its moves leave the targets alone.
  have moved : ∀ {e₁ : Exchange} {f : Publication → Publication}, e₁.publications = e.publications →
      (∀ q₀, e.publications[p']? = some q₀ → (f q₀).topic = q₀.topic ∧
        (q₀.progress ≠ .fresh ∧ (f q₀).targets = q₀.targets ∨
          q₀.progress = .fresh ∧ (e.closed = true ∨ ∀ l, e.registry.lookup q₀.topic = some l → (f q₀).targets = l))) →
      ∃ q', (e₁.updatePublication p' f).publications[p]? = some q' ∧ q'.topic = q.topic ∧ (q' = q ∨
        q.progress ≠ .fresh ∧ q'.targets = q.targets ∨
        q.progress = .fresh ∧ (e.closed = true ∨ ∀ l, e.registry.lookup q.topic = some l → q'.targets = l)) := by
    intro e₁ f he hf
    refine ⟨_, publication?_update (he ▸ hq), ?_⟩
    by_cases hp : p' = p
    · subst hp
      rw [if_pos rfl]
      exact ⟨(hf q hq).1, .inr (hf q hq).2⟩
    · rw [if_neg hp]
      exact ⟨rfl, .inl rfl⟩
  have sending : ∀ {q₀ q₁ : Publication} {rest : List Message} {ahead : List Nat}, e.publications[p']? = some q₁ →
      q₁.progress = .sending rest ahead → e.publications[p']? = some q₀ → q₀.progress ≠ .fresh := by
    intro q₀ q₁ rest ahead h₁ hp h₀ hf
    rw [h₁] at h₀
    cases h₀
    rw [hp] at hf
    cases hf
  cases ha with
  | stays => exact ⟨q, hq, rfl, .inl rfl⟩
  | refused h₁ hp hc =>
    refine moved rfl fun q₀ h₀ => ⟨rfl, .inr ⟨?_, .inl hc⟩⟩
    rw [h₁] at h₀
    cases h₀
    exact hp
  | unheard h₁ hp _ hl =>
    refine moved rfl fun q₀ h₀ => ?_
    rw [h₁] at h₀
    cases h₀
    exact ⟨rfl, .inr ⟨hp, .inr fun l hl' => nomatch hl.symm.trans hl'⟩⟩
  | begins h₁ hp _ hl =>
    refine moved rfl fun q₀ h₀ => ?_
    rw [h₁] at h₀
    cases h₀
    exact ⟨rfl, .inr ⟨hp, .inr fun l hl' => Option.some.inj (hl.symm.trans hl')⟩⟩
  | finishes h₁ hp _ | proceeds h₁ hp | cutShort h₁ hp _ | skips h₁ hp _ _ | misses h₁ hp _ _ _
  | accepted h₁ hp _ _ _ _ => exact moved rfl fun q₀ h₀ => ⟨rfl, .inl ⟨sending h₁ hp h₀, rfl⟩⟩
  | waits _ _ _ _ _ _ _ _ => exact ⟨q, hq, rfl, .inl rfl⟩

/-- Publication `p` goes to subscription `i`, as soon as it begins, unless the exchange is closed by then
    or the reader of the subscription has gone. -/
def Expects (e : Exchange) (p i : Nat) : Prop :=
  ∃ q sub, e.publications[p]? = some q ∧ e.subscriptions[i]? = some sub ∧ sub.topic = q.topic ∧
    (q.progress = .fresh ∨ i ∈ q.targets ∨ e.closed = true ∨ sub.dropped = true)

theorem Expects.step {h : Hub} (hx : h.exchange.Expects p i) (hl : h.exchange.Listed) (o : Hub.Op) :
    (h.step o).exchange.Expects p i := by
  obtain ⟨q, sub, hq, hs, ht, hcase⟩ := hx
  have he := Hub.step_evolves h o
  obtain ⟨sub', hs', ht', -, hd'⟩ := he.subscription hs
  have same : (h.step o).exchange.publications[p]? = some q → (h.step o).exchange.Expects p i := fun hq' =>
    ⟨q, sub', hq', hs', ht'.trans ht, hcase.imp id (.imp id (.imp he.closed hd'))⟩
  cases o with
  | token | derive _ | cancel _ | subscribe _ _ | register _ | publish _ _ | poll _ | drop _ | close | clear =>
    exact same (Hub.publication_kept hq nofun)
  | advance p' =>
    obtain ⟨q', hq', htopic, hmove⟩ := (advance_cases h.exchange p').targets hq
    refine ⟨q', sub', hq', hs', (ht'.trans ht).trans htopic.symm, ?_⟩
    rcases hmove with rfl | ⟨hnf, htargets⟩ | ⟨-, hc | hlookup⟩
    · exact hcase.imp id (.imp id (.imp he.closed hd'))
    · refine .inr (hcase.resolve_left hnf |>.imp (htargets ▸ id) (.imp he.closed hd'))
    · exact .inr (.inr (.inl (he.closed hc)))
    · -- The publication begins, and the subscription is listed if it can get anything.
      by_cases hclosed : h.exchange.closed = true
      · exact .inr (.inr (.inl (he.closed hclosed)))
      · by_cases hdropped : sub.dropped = true
        · exact .inr (.inr (.inr (hd' hdropped)))
        · obtain ⟨l, hfound, hi⟩ := hl.present (Bool.eq_false_iff.mpr hclosed) hs (Bool.eq_false_iff.mpr hdropped)
          rw [ht] at hfound
          exact .inr (.inl (hlookup l hfound ▸ hi))

/-- What holds of an exchange at any time. -/
structure Faithful (e : Exchange) : Prop where
  sound : e.Sound
  listed : e.Listed
  fanned : e.Fanned

theorem Faithful.new (capacity : Option Nat) : ({ capacity } : Exchange).Faithful where
  sound := .new capacity
  listed := ⟨fun _ => ⟨fun _ hs => (nomatch hs), fun _ hm => (nomatch hm)⟩, fun _ hm => (nomatch hm), nofun⟩
  fanned := ⟨fun hq => (nomatch hq), fun hq => (nomatch hq), fun hq => (nomatch hq), fun _ hs => (nomatch hs)⟩

theorem Faithful.step {h : Hub} (hf : h.exchange.Faithful) (o : Hub.Op) : (h.step o).exchange.Faithful where
  sound := hf.sound.step o
  listed := hf.listed.step hf.sound o
  fanned := hf.fanned.step hf.listed hf.sound o

/-- A publication that has returned without an error has given its whole batch to each subscription on its
    topic that was there when it began and still has its reader, and nothing to those on other topics. -/
theorem Faithful.received {q : Publication} {sub : Subscription} (hf : e.Faithful) (hr : e.returned? p = some none)
    (hq : e.publications[p]? = some q) (hs : e.subscriptions[i]? = some sub) (hd : sub.dropped = false) :
    (sub.topic = q.topic → e.closed = false → e.Expects p i → sub.acceptedOf p = q.messages) ∧
      (sub.topic ≠ q.topic → sub.acceptedOf p = []) := by
  have hended : q.progress = .ended none := by
    unfold returned? at hr
    rw [hq] at hr
    split at hr
    · rename_i h
      cases h
      cases hr
      rfl
    · cases hr
  have hon : i ∈ q.targets → sub.topic = q.topic := fun hi => by
    obtain ⟨sub', hs', ht⟩ := (hf.sound.addressed hq).targets i hi
    rw [hs] at hs'
    cases hs'
    exact ht
  have hreach := (hf.fanned.reaches hq hs hd).ended hended
  refine ⟨fun _ hc hx => ?_, fun hne => ?_⟩
  · have hi : i ∈ q.targets := by
      obtain ⟨q', sub', hq', hs', -, hcase⟩ := hx
      rw [hq] at hq'
      rw [hs] at hs'
      cases hq'
      cases hs'
      simpa [hended, hc, hd] using hcase
    exact (hreach.resolve_left fun hn => hn.1 hi).2
  · exact (hreach.resolve_right fun hi => hne (hon hi.1)).2

end Exchange
end Relay
