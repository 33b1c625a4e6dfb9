import Relay.Proofs.Exchange.Backpressure
import Relay.Proofs.Exchange.Streams

/-! Closing an exchange is final. What is in the queues stays there: nothing is read any more and nothing is put
    behind it, by those that wait for a place as little as by those that come later. They are all told that the
    exchange is closed, each in its next turn, and nobody is admitted from then on.

    The lists are cleared in a second step. Whoever was admitted before the exchange was closed and is registered
    after that step is listed for good, with a stream that has ended. -/

namespace Relay

namespace Subscription

/-- What can become of a subscription to a closed exchange: its reader may go, and then its queue goes as well. -/
structure Sealed (s s' : Subscription) : Prop where
  topic : s'.topic = s.topic
  token : s'.token = s.token
  accepted : s'.accepted = s.accepted
  taken : s'.taken = s.taken
  dropped : s.dropped = true → s'.dropped = true
  queue : s'.queue = s.queue ∨ s'.dropped = true ∧ s'.queue = []

namespace Sealed
variable {s t u : Subscription}

theorem refl (s : Subscription) : s.Sealed s := ⟨rfl, rfl, rfl, rfl, id, .inl rfl⟩

theorem trans (h₁ : s.Sealed t) (h₂ : t.Sealed u) : s.Sealed u where
  topic := h₂.topic.trans h₁.topic
  token := h₂.token.trans h₁.token
  accepted := h₂.accepted.trans h₁.accepted
  taken := h₂.taken.trans h₁.taken
  dropped hd := h₂.dropped (h₁.dropped hd)
  queue := by
    rcases h₂.queue with hu | hu
    · exact h₁.queue.imp hu.trans fun ⟨hd, ht⟩ => ⟨h₂.dropped hd, hu.trans ht⟩
    · exact .inr hu

theorem withdraw {p : Nat} : s.Sealed (s.withdraw p) := by
  unfold Subscription.withdraw
  split
  · exact ⟨by simp, by simp, by simp, by simp, by simp, .inl (by simp)⟩
  · exact ⟨rfl, rfl, rfl, rfl, id, .inl rfl⟩

theorem drop : s.Sealed s.drop := ⟨rfl, rfl, rfl, rfl, fun _ => rfl, .inr ⟨rfl, rfl⟩⟩

end Sealed
end Subscription

/-- A publication that has a message for somebody, as far as it knows, and those that have not begun. -/
def Publication.Outstanding (q : Publication) : Prop :=
  q.progress = .fresh ∨ ∃ m rest i ahead, q.progress = .sending (m :: rest) (i :: ahead)

/-- What is left of a publication that is told that the exchange is closed. -/
def Publication.refuse (q : Publication) : Publication := { q with progress := .ended (some .closed) }

namespace Exchange
variable {e : Exchange} {p i : Nat} {q : Publication}

theorem shut_of_closed (hc : e.closed = true) : e.shut = e := if_pos hc

theorem poll_of_closed (hc : e.closed = true) (tokens : Tokens) (i : Nat) : e.poll tokens i = (.ended, e) := by
  unfold poll hasEnded
  rw [hc]
  split <;> rfl

theorem letIn_of_closed (hc : e.closed = true) (t : Token) (topic : String) :
    e.letIn t topic = .error (.refused .closed) := if_pos hc

theorem isBlocked_of_closed (hc : e.closed = true) (p : Nat) : e.isBlocked p = false := by
  refine Bool.eq_false_iff.mpr fun hb => ?_
  obtain ⟨_, _, hw⟩ := isBlocked_iff.mp hb
  exact nomatch hc.symm.trans hw.opened

theorem advance_fresh_of_closed (hc : e.closed = true) (hq : e.publications[p]? = some q)
    (hf : q.progress = .fresh) : e.advance p = e.setProgress p (.ended (some .closed)) := by
  unfold advance
  rw [hq]
  dsimp only
  rw [hf]
  exact if_pos hc

/-- A publication that has something to send, or has not begun, is told in its next turn. -/
theorem advance_of_closed (hc : e.closed = true) (hq : e.publications[p]? = some q) (ho : q.Outstanding) :
    (e.advance p).publications[p]? = some q.refuse := by
  have moved : ∀ {e₁ : Exchange}, e₁.publications = e.publications →
      (e₁.setProgress p (.ended (some .closed))).publications[p]? = some q.refuse := fun he =>
    (publication?_update (he ▸ hq)).trans (congrArg some (if_pos rfl))
  rcases ho with hf | ⟨m, rest, i, ahead, hs⟩
  · rw [advance_fresh_of_closed hc hq hf]
    exact moved rfl
  · unfold advance
    rw [hq]
    dsimp only
    rw [hs]
    dsimp only
    rw [send, if_pos hc]
    exact moved rfl

theorem returned?_of_outstanding (hq : e.publications[p]? = some q) (ho : q.Outstanding) :
    e.returned? p = none := by
  refine Option.eq_none_iff_forall_ne_some.mpr fun r hret => ?_
  have hended := (Hub.returned?_eq hq).mp hret
  rcases ho with ho | ⟨_, _, _, _, ho⟩ <;> cases ho.symm.trans hended

theorem outstanding_of_isBlocked (hb : e.isBlocked p = true) :
    ∃ q, e.publications[p]? = some q ∧ q.Outstanding := by
  obtain ⟨i, s, hw⟩ := isBlocked_iff.mp hb
  obtain ⟨q, m, rest, ahead, hq, hp⟩ := hw.current
  exact ⟨q, hq, .inr ⟨m, rest, i, ahead, hp⟩⟩

/-- Subscription `i` is this one, or is this one when a call makes it that has been admitted. -/
def StartsAs (e : Exchange) (i : Nat) (s : Subscription) : Prop :=
  e.subscriptions[i]? = some s ∨
    e.subscriptions.length ≤ i ∧ ∃ a ∈ e.admitted, s = { topic := a.topic, token := a.token }

end Exchange

namespace Hub
open Exchange
variable {h : Hub} {o : Op} {ops : List Op} {capacity : Option Nat} {p i : Nat} {s s' : Subscription} {q : Publication}

/-! ### One operation on a closed exchange -/

theorem Changes.sealed (hc : Changes h i s o s') (hclosed : h.exchange.closed = true) : s.Sealed s' := by
  cases hc with
  | stays => exact .refl s
  | accepts _ _ hopen _ _ | awaits hopen _ _ _ _ => exact nomatch hclosed.symm.trans hopen
  | withdraws _ => exact .withdraw
  | takes _ hend =>
    rw [hasEnded, hclosed] at hend
    cases hend
  | drops => exact .drop

theorem step_closed (hc : h.exchange.closed = true) (o : Op) : (h.step o).exchange.closed = true :=
  (step_evolves h o).closed hc

theorem run_closed (hc : h.exchange.closed = true) (ops : List Op) : (h.run ops).exchange.closed = true :=
  (run_evolves h ops).closed hc

theorem step_subscribe_of_closed (hc : h.exchange.closed = true) (t : Token) (topic : String) :
    h.step (.subscribe t topic) = h := by
  unfold step
  dsimp only
  rw [letIn_of_closed hc]

/-- Nobody else is admitted. -/
theorem admitted_step (hc : h.exchange.closed = true) (o : Op) :
    (h.step o).exchange.admitted.Sublist h.exchange.admitted := by
  have hm := h.step_moves o
  generalize (h.step o).exchange = e at hm ⊢
  cases hm with
  | admits hopen => cases hopen.symm.trans hc
  | dismisses hsub => exact hsub
  | @registers k _ _ => exact List.eraseIdx_sublist _ k
  | advances ha => rw [ha.calls.1]
  | stays | publishes | takes _ _ _ | drops | shuts _ | clears _ => exact .refl _

/-- The old subscriptions are sealed, and so are the new ones from their beginning on. -/
theorem startsAs_step (hc : h.exchange.closed = true) (hs' : (h.step o).exchange.StartsAs i s') :
    ∃ s, h.exchange.StartsAs i s ∧ s.Sealed s' := by
  rcases hs' with hs' | ⟨hi, a, ha, rfl⟩
  · rcases changes hs' with ⟨s, hs, hchange⟩ | ⟨rfl, k, a, -, ha, rfl⟩
    · exact ⟨s, .inl hs, hchange.sealed hc⟩
    · exact ⟨_, .inr ⟨Nat.le_refl _, a, List.mem_of_getElem? ha, rfl⟩, .refl _⟩
  · exact ⟨_, .inr ⟨Nat.le_trans (step_evolves h o).length_subscriptions hi, a, (admitted_step hc o).subset ha, rfl⟩,
      .refl _⟩

/-- Lists that have been cleared are not to be cleared again. -/
theorem clearing_step (hc : h.exchange.closed = true) (hn : h.exchange.clearing = false) (o : Op) :
    (h.step o).exchange.clearing = false := by
  refine Bool.eq_false_iff.mpr fun hclearing => ?_
  rcases clearing_back hclearing with hy | ⟨-, hopen⟩
  · cases hn.symm.trans hy
  · cases hc.symm.trans hopen

/-! ### From then on -/

theorem startsAs_run (hc : h.exchange.closed = true) (ops : List Op)
    (hs' : (h.run ops).exchange.StartsAs i s') : ∃ s, h.exchange.StartsAs i s ∧ s.Sealed s' := by
  induction ops generalizing h with
  | nil => exact ⟨s', hs', .refl s'⟩
  | cons o ops ih =>
    obtain ⟨s₁, hs₁, hsealed⟩ := ih (step_closed hc o) hs'
    obtain ⟨s, hs, hsealed₁⟩ := startsAs_step hc hs₁
    exact ⟨s, hs, hsealed₁.trans hsealed⟩

/-- What the lists begin with they go on with, if they are not cleared. -/
theorem listsFrom_run {n : Nat} (hl : h.exchange.ListsFrom n) (hn : n ≤ h.exchange.subscriptions.length)
    (ops : List Op) (ho : .clear ∈ ops → h.exchange.closed = true ∧ h.exchange.clearing = false) :
    (h.run ops).exchange.ListsFrom n := by
  induction ops generalizing h with
  | nil => exact hl
  | cons o ops ih =>
    refine ih (hl.step hn fun he => (ho (he ▸ List.mem_cons_self)).2)
      (Nat.le_trans hn (step_evolves h o).length_subscriptions) fun hmem => ?_
    obtain ⟨hc, hclearing⟩ := ho (List.mem_cons_of_mem o hmem)
    exact ⟨step_closed hc o, clearing_step hc hclearing o⟩

/-- When the lists have been cleared they list those who are registered from then on. -/
theorem listsFrom_cleared (hc : h.exchange.closed = true) (hclearing : h.exchange.clearing = true) (ops : List Op) :
    ((h.step .clear).run ops).exchange.ListsFrom h.exchange.subscriptions.length := by
  have hcleared : (h.step .clear).exchange = { h.exchange with registry := [], clearing := false } := if_pos hclearing
  refine listsFrom_run (h := h.step .clear) ?_ (by rw [hcleared]) ops fun _ => by
    rw [hcleared]
    exact ⟨hc, rfl⟩
  rw [hcleared]
  refine ⟨fun hi hs _ => ?_, fun _ hm => nomatch hm⟩
  exact absurd (List.getElem?_eq_some_iff.mp hs).1 (Nat.not_lt_of_le hi)

theorem count_of_listsFrom {n : Nat} (hr : Reachable capacity h) (hl : h.exchange.ListsFrom n) (topic : String) :
    h.exchange.count topic = ((h.exchange.streams topic).filter fun i => n ≤ i).length := by
  rw [count_eq, hr.wellListed.filter_listed hl]

theorem admitted_run (hc : h.exchange.closed = true) (ops : List Op) :
    (h.run ops).exchange.admitted.Sublist h.exchange.admitted := by
  induction ops generalizing h with
  | nil => exact .refl _
  | cons o ops ih => exact (ih (step_closed hc o)).trans (admitted_step hc o)

theorem publication_ended_run {r : Option TransportError} (hq : h.exchange.publications[p]? = some q)
    (hp : q.progress = .ended r) (ops : List Op) : (h.run ops).exchange.publications[p]? = some q := by
  induction ops generalizing h with
  | nil => exact hq
  | cons o ops ih => exact ih (publication_ended hq hp o)

/-- A publication that was outstanding is as it was until its next turn, and then it is told. -/
theorem outstanding_run (hc : h.exchange.closed = true) (hq : h.exchange.publications[p]? = some q)
    (ho : q.Outstanding) (ops : List Op) :
    (h.run ops).exchange.publications[p]? = some (if .advance p ∈ ops then q.refuse else q) := by
  induction ops generalizing h with
  | nil => exact hq
  | cons o ops ih =>
    by_cases hturn : o = .advance p
    · subst hturn
      rw [if_pos List.mem_cons_self]
      exact publication_ended_run (advance_of_closed hc hq ho) rfl ops
    · simp only [List.mem_cons, Ne.symm hturn, false_or]
      exact ih (step_closed hc o) (publication_kept hq hturn)

/-- What is published later has not begun, or has been told. -/
theorem later_run (hc : h.exchange.closed = true) (ops : List Op) (hp : h.exchange.publications.length ≤ p)
    (hq : (h.run ops).exchange.publications[p]? = some q) :
    q.progress = .fresh ∨ q.progress = .ended (some .closed) := by
  induction ops generalizing h with
  | nil => exact absurd (List.getElem?_eq_some_iff.mp hq).1 (Nat.not_lt_of_le hp)
  | cons o ops ih =>
    cases hq₁ : (h.step o).exchange.publications[p]? with
    | none => exact ih (step_closed hc o) (List.getElem?_eq_none_iff.mp hq₁) hq
    | some q₁ =>
      rcases publication_back hq₁ with ⟨q₀, hq₀, -⟩ | ⟨-, topic, batch, -, rfl⟩
      · exact absurd (List.getElem?_eq_some_iff.mp hq₀).1 (Nat.not_lt_of_le hp)
      · have hrun := outstanding_run (step_closed hc o) hq₁ (.inl rfl) ops
        rw [show (h.step o).run ops = h.run (o :: ops) from rfl, hq] at hrun
        cases hrun
        split
        · exact .inr rfl
        · exact .inl rfl

/-- What holds after `ops` in `h'` if the exchange of `h` was closed before them. -/
structure Final (h : Hub) (ops : List Op) (h' : Hub) : Prop where
  closed : h'.exchange.closed = true
  /-- No stream yields a message, whether or not there is one in its queue. -/
  ended : ∀ i, h'.exchange.poll h'.tokens i = (.ended, h'.exchange)
  /-- The only new subscriptions are of calls that had been admitted. Nothing has been read from the old ones and
      nothing put into any queue. -/
  unread : ∀ {i : Nat} {s' : Subscription}, h'.exchange.subscriptions[i]? = some s' →
    ∃ s, h.exchange.StartsAs i s ∧ s.Sealed s'
  blocked : ∀ p, h'.exchange.isBlocked p = false
  /-- What waited for room has been told if it has had a turn since, and otherwise is told in the next one. -/
  waiting : ∀ {p : Nat}, h.exchange.isBlocked p = true →
    h'.exchange.returned? p = (if .advance p ∈ ops then some (some .closed) else none) ∧
      (h'.step (.advance p)).exchange.returned? p = some (some .closed)
  /-- So has what did not wait, but had something to send or had not begun. -/
  outstanding : ∀ {p : Nat} {q : Publication}, h.exchange.publications[p]? = some q → q.Outstanding →
    h'.exchange.publications[p]? = some (if .advance p ∈ ops then q.refuse else q)
  /-- What is published later does not even begin. -/
  later : ∀ {p : Nat} {q : Publication}, h.exchange.publications.length ≤ p →
    h'.exchange.publications[p]? = some q → q.progress = .fresh ∨ q.progress = .ended (some .closed)
  refused : ∀ {p : Nat} {q : Publication}, h'.exchange.publications[p]? = some q → q.progress = .fresh →
    h'.step (.advance p) = { h' with exchange := h'.exchange.setProgress p (.ended (some .closed)) }
  /-- Nobody else is admitted. -/
  subscribe : ∀ (t : Token) (topic : String), h'.exchange.letIn t topic = .error (.refused .closed) ∧
    h'.step (.subscribe t topic) = h'
  admitted : h'.exchange.admitted.Sublist h.exchange.admitted
  /-- Until the lists are cleared, the streams that are there are counted, -/
  uncleared : h.exchange.closed = false → .clear ∉ ops →
    ∀ topic, h'.exchange.count topic = (h'.exchange.streams topic).length
  /-- and from then on, those of them that were registered later, -/
  late : ∀ {before after : List Op}, ops = before ++ .clear :: after →
    ((h.step .close).run before).exchange.clearing = true → ∀ topic, h'.exchange.count topic =
      ((h'.exchange.streams topic).filter fun i =>
        ((h.step .close).run before).exchange.subscriptions.length ≤ i).length
  /-- of which there are none if nobody was still to be registered. -/
  count : ∀ {before after : List Op}, ops = before ++ .clear :: after →
    ((h.step .close).run before).exchange.clearing = true →
    ((h.step .close).run before).exchange.admitted = [] → ∀ topic, h'.exchange.count topic = 0
  again : h'.step .close = h'

/-- Where nobody is still to be registered there are no new streams. -/
theorem streams_lt (hc : h.exchange.closed = true) (ha : h.exchange.admitted = []) (ops : List Op) {topic : String}
    (hi : i ∈ (h.run ops).exchange.streams topic) : i < h.exchange.subscriptions.length := by
  obtain ⟨s', hs', -⟩ := isOpenOn_eq_true_iff.mp (mem_streams.mp hi)
  obtain ⟨s, hs | ⟨-, a, hmem, -⟩, -⟩ := startsAs_run hc ops (.inl hs')
  · exact (List.getElem?_eq_some_iff.mp hs).1
  · rw [ha] at hmem
    cases hmem

/-- Closing is final. Once an exchange is closed, whatever is done to it: its streams yield nothing more, nothing
    gets into a queue, everyone who waits, publishes or subscribes is told that it is closed, and closing it again
    does nothing. When the lists have been cleared no topic has subscriptions, but for those of calls that had been
    admitted and were registered only then. -/
theorem close_final (hr : Reachable capacity h) (ops : List Op) : h.Final ops ((h.step .close).run ops) := by
  have hc : (h.step .close).exchange.closed = true := closed_shut h.exchange
  have hc' := run_closed hc ops
  have hr' : Reachable capacity ((h.step .close).run ops) := (hr.step .close).run ops
  have hkept : ∀ {p : Nat} {q : Publication}, h.exchange.publications[p]? = some q →
      (h.step .close).exchange.publications[p]? = some q := fun hq => publication_kept hq nofun
  have houtstanding : ∀ {p : Nat} {q : Publication}, h.exchange.publications[p]? = some q → q.Outstanding →
      ((h.step .close).run ops).exchange.publications[p]? = some (if .advance p ∈ ops then q.refuse else q) :=
    fun hq ho => outstanding_run hc (hkept hq) ho ops
  have hsame : (h.step .close).exchange.subscriptions = h.exchange.subscriptions ∧
      (h.step .close).exchange.admitted = h.exchange.admitted ∧
      (h.step .close).exchange.publications = h.exchange.publications := by
    have hm := h.step_moves .close
    generalize (h.step .close).exchange = e at hm ⊢
    cases hm <;> exact ⟨rfl, rfl, rfl⟩
  obtain ⟨hsubs, hadmitted, hpubs⟩ := hsame
  -- The lists, from where they have been cleared.
  have hcleared : ∀ {before after : List Op}, ops = before ++ .clear :: after →
      ((h.step .close).run before).exchange.clearing = true →
      ((h.step .close).run ops).exchange.ListsFrom ((h.step .close).run before).exchange.subscriptions.length := by
    rintro before after rfl hclearing
    rw [run_append]
    exact listsFrom_cleared (run_closed hc before) hclearing after
  exact {
    closed := hc'
    ended := poll_of_closed hc' _
    unread := fun {i s'} hs' => by
      obtain ⟨s, hs, hsealed⟩ := startsAs_run hc ops (.inl hs')
      rw [StartsAs, hsubs, hadmitted] at hs
      exact ⟨s, hs, hsealed⟩
    blocked := isBlocked_of_closed hc'
    waiting := fun {p} hb => by
      obtain ⟨q, hq, ho⟩ := outstanding_of_isBlocked hb
      have hq' := houtstanding hq ho
      by_cases hturn : .advance p ∈ ops
      · rw [if_pos hturn] at hq' ⊢
        exact ⟨(returned?_eq hq').mpr rfl, (returned?_eq (publication_ended hq' rfl _)).mpr rfl⟩
      · rw [if_neg hturn] at hq' ⊢
        exact ⟨returned?_of_outstanding hq' ho, (returned?_eq (advance_of_closed hc' hq' ho)).mpr rfl⟩
    outstanding := houtstanding
    later := fun {p q} hp hq => later_run hc ops (by rwa [hpubs]) hq
    refused := fun hq hf => congrArg (fun e => Hub.mk _ e) (advance_fresh_of_closed hc' hq hf)
    subscribe := fun t topic => ⟨letIn_of_closed hc' t topic, step_subscribe_of_closed hc' t topic⟩
    admitted := hadmitted ▸ admitted_run hc ops
    uncleared := fun hopen ho topic => by
      have hall := (hr.faithful.listed.everyone hopen).step (Nat.zero_le _) (o := .close) nofun
      rw [count_of_listsFrom hr' (listsFrom_run hall (Nat.zero_le _) ops fun hmem => absurd hmem ho)]
      simp
    late := fun hops hclearing topic => count_of_listsFrom hr' (hcleared hops hclearing) topic
    count := fun {before after} hops hclearing hnone topic => by
      rw [count_of_listsFrom hr' (hcleared hops hclearing)]
      refine List.length_eq_zero_iff.mpr (List.filter_eq_nil_iff.mpr fun i hi => ?_)
      rw [hops, run_append] at hi
      have hlt := streams_lt (run_closed hc before) hnone _ hi
      simpa using hlt
    again := congrArg (fun e => Hub.mk _ e) (shut_of_closed hc') }

/-- A publication waits behind a message that nobody has read when the exchange is closed. -/
theorem close_final_of_crowded : ((start (some 1)).run crowded).exchange.isBlocked 0 = true ∧
    ((start (some 1)).run crowded).Final [.poll 0, .close, .clear, .publish "t" [], .advance 1, .advance 0]
      ((((start (some 1)).run crowded).step .close).run
        [.poll 0, .close, .clear, .publish "t" [], .advance 1, .advance 0]) :=
  ⟨rfl, close_final (Reachable.start.run crowded) _⟩

/-- A call that has found the exchange open is registered when the call that closes it has come to its end. -/
theorem late_registration : ¬∀ (capacity : Option Nat) (h : Hub) (before after : List Op), Reachable capacity h →
    h.exchange.closed = false → ∀ topic,
    ((h.step .close).run (before ++ .clear :: after)).exchange.count topic = 0 := by
  intro hzero
  have hcount :=
    hzero none ((start none).run [.token, .subscribe 0 "t"]) [] [.register 0] (Reachable.start.run _) rfl "t"
  exact absurd hcount (by decide)

/-- A further call returns while the lists are still to be cleared. -/
example : ((start none).run [.token, .subscribe 0 "t", .register 0, .close, .close]).exchange.count "t" = 1 := rfl

end Hub
end Relay
