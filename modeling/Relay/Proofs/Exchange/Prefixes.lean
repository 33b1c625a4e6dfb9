import Relay.Proofs.Exchange.Changes
import Relay.Proofs.Exchange.Fanout

/-! How far a publication has come with each subscription. What it has offered to a subscription by now
    only grows, is never more than one message ahead of what it has offered to the next, and is what the
    subscription has accepted as long as its reader is there; afterwards that is a prefix of it. When the
    publication has returned, nobody gets anything more of it, and so what is published later comes
    behind. -/

namespace Relay

/-- A subscription has accepted no message of publication `p` behind one of publication `p'`. -/
def Subscription.Before (s : Subscription) (p p' : Nat) : Prop :=
  s.accepted.Pairwise fun a b => a.1 = p' → b.1 ≠ p

/-! ### What is offered -/

namespace Publication
variable {q q' : Publication} {i j : Nat} {m : Message} {rest got : List Message} {ahead : List Nat}

/-- What a publication has offered to subscription `i` by now. -/
def offered (q : Publication) (i : Nat) : List Message :=
  if i ∈ q.targets then
    match q.progress with
    | .fresh => []
    | .sending rest ahead => q.messages.take (q.messages.length - rest.length + if i ∈ ahead then 0 else 1)
    | .ended _ => q.messages
  else []

theorem offered_of_not_mem (hi : i ∉ q.targets) : q.offered i = [] := if_neg hi

theorem offered_sending (hi : i ∈ q.targets) (hp : q.progress = .sending rest ahead) :
    q.offered i = q.messages.take (q.messages.length - rest.length + if i ∈ ahead then 0 else 1) := by
  unfold offered
  rw [if_pos hi, hp]

theorem offered_ended {r : Option TransportError} (hi : i ∈ q.targets) (hp : q.progress = .ended r) :
    q.offered i = q.messages := by
  unfold offered
  rw [if_pos hi, hp]

theorem offered_prefix (q : Publication) (i : Nat) : q.offered i <+: q.messages := by
  unfold offered
  split
  · split
    · exact List.nil_prefix
    · exact List.take_prefix _ _
    · exact List.prefix_rfl
  · exact List.nil_prefix

/-- A subscription whose reader is there has got what it was offered. -/
theorem Reaches.offered (h : q.Reaches i got)
    (ht : ∀ rest ahead, q.progress = .sending rest ahead → ahead <:+ q.targets)
    (he : ∀ err, q.progress ≠ .ended (some err)) : got = q.offered i := by
  cases h with
  | spared hi => exact (offered_of_not_mem hi).symm
  | @behind sent rest ahead hp hi hsent =>
    rw [offered_sending ((ht _ _ hp).mem hi) hp, if_pos hi, ← hsent]
    simp
  | @abreast sent rest m ahead hi hp hn hsent =>
    have hsplit : q.messages = (sent ++ [m]) ++ rest := by simp [← hsent]
    rw [offered_sending hi hp, if_neg hn, hsplit, List.take_left' (by simp)]
  | @through ahead hi hp =>
    rw [offered_sending hi hp, List.take_of_length_le (by simp)]
  | done hi hp => exact (offered_ended hi hp).symm
  | cutShort hp => exact absurd hp (he _)

/-- While a publication is under way, a subscription has been offered as much as a later one, or one message
    more. -/
theorem offered_paced (hp : q.progress = .sending rest ahead) (ht : ahead <:+ q.targets)
    (hs : q.targets.Pairwise (· < ·)) (hi : i ∈ q.targets) (hj : j ∈ q.targets) (hij : i < j) :
    (q.offered j).length ≤ (q.offered i).length ∧ (q.offered i).length ≤ (q.offered j).length + 1 := by
  rw [offered_sending hi hp, offered_sending hj hp, List.length_take, List.length_take]
  by_cases hia : i ∈ ahead
  · have hja : j ∈ ahead := by
      obtain ⟨gone, hgone⟩ := ht
      rw [← hgone, List.pairwise_append] at hs
      rw [← hgone] at hj
      exact (List.mem_append.mp hj).resolve_left fun hmem => Nat.lt_asymm hij (hs.2.2 j hmem i hia)
    rw [if_pos hia, if_pos hja]
    omega
  · rw [if_neg hia]
    split <;> omega

/-! ### How a publication moves on -/

/-- A later state of a publication: it is the same batch, and what has been offered has been offered. -/
structure Onward (q q' : Publication) : Prop where
  topic : q'.topic = q.topic
  batch : q'.batch = q.batch
  begun : q.progress ≠ .fresh → q'.progress ≠ .fresh ∧ q'.targets = q.targets
  offered : ∀ i, q.offered i <+: q'.offered i

namespace Onward

theorem refl (q : Publication) : q.Onward q := ⟨rfl, rfl, fun h => ⟨h, rfl⟩, fun _ => List.prefix_rfl⟩

theorem trans {q'' : Publication} (h : q.Onward q') (h' : q'.Onward q'') : q.Onward q'' where
  topic := h'.topic.trans h.topic
  batch := h'.batch.trans h.batch
  begun hb := ⟨(h'.begun (h.begun hb).1).1, (h'.begun (h.begun hb).1).2.trans (h.begun hb).2⟩
  offered i := (h.offered i).trans (h'.offered i)

theorem messages (h : q.Onward q') : q'.messages = q.messages := by
  unfold Publication.messages
  rw [h.topic, h.batch]

theorem begins (hp : q.progress = .fresh) (ht : q'.topic = q.topic) (hb : q'.batch = q.batch) : q.Onward q' where
  topic := ht
  batch := hb
  begun h := absurd hp h
  offered i := by
    unfold Publication.offered
    rw [hp]
    split <;> exact List.nil_prefix

theorem ends {r : Option TransportError} : q.Onward { q with progress := .ended r } where
  topic := rfl
  batch := rfl
  begun _ := ⟨nofun, rfl⟩
  offered i := by
    by_cases hi : i ∈ q.targets
    · rw [offered_ended (q := { q with progress := .ended r }) hi rfl]
      exact offered_prefix q i
    · rw [offered_of_not_mem hi]
      exact List.nil_prefix

/-- The publication goes on with the first message that is left, or with the next. -/
theorem proceeds {rest' : List Message} {ahead' : List Nat} {b : Bool} (hp : q.progress = .sending rest ahead)
    (hle : ∀ i ∈ q.targets, q.messages.length - rest.length + (if i ∈ ahead then 0 else 1) ≤
      q.messages.length - rest'.length + if i ∈ ahead' then 0 else 1) :
    q.Onward { q with missed := b, progress := .sending rest' ahead' } where
  topic := rfl
  batch := rfl
  begun _ := ⟨nofun, rfl⟩
  offered i := by
    by_cases hi : i ∈ q.targets
    · rw [offered_sending hi hp,
        offered_sending (q := { q with missed := b, progress := .sending rest' ahead' }) hi rfl]
      exact List.take_prefix_take_left (hle i hi)
    · rw [offered_of_not_mem hi]
      exact List.nil_prefix

theorem passes {s : Nat} {b : Bool} (hp : q.progress = .sending (m :: rest) (s :: ahead)) :
    q.Onward { q with missed := b, progress := .sending (m :: rest) ahead } :=
  .proceeds hp fun i _ => by
    by_cases hi : i ∈ ahead
    · exact Nat.le_of_eq (by rw [if_pos hi, if_pos (List.mem_cons_of_mem s hi)])
    · rw [if_neg hi]
      split <;> omega

end Onward
end Publication

namespace Hub
open Exchange
variable {h : Hub} {o : Op} {p i j : Nat} {s s' : Subscription} {q : Publication}

theorem Turn.onward {e : Exchange} {q' : Publication} (ht : Turn e q q') (ha : e.Addressed q) : q.Onward q' := by
  cases ht with
  | stays => exact .refl q
  | refused hp _ | unheard hp _ _ | begins hp _ _ => exact .begins hp rfl rfl
  | finishes _ | cutShort _ _ => exact .ends
  | @proceeds m rest hp =>
    refine .proceeds (b := q.missed) hp fun i hi => ?_
    have hle : (m :: rest).length ≤ q.messages.length := (ha.sending hp).1.length_le
    rw [List.length_cons] at hle ⊢
    rw [if_pos hi, if_neg List.not_mem_nil]
    omega
  | passes hp => exact .passes hp

theorem onward_run (hf : h.exchange.Faithful) (hq : h.exchange.publications[p]? = some q) (ops : List Op) :
    ∃ q', (h.run ops).exchange.publications[p]? = some q' ∧ q.Onward q' := by
  induction ops generalizing h q with
  | nil => exact ⟨q, hq, .refl q⟩
  | cons o ops ih =>
    obtain ⟨q₁, hq₁, ht⟩ := turn hq o
    obtain ⟨q', hq', h'⟩ := ih (hf.step o) hq₁
    exact ⟨q', hq', (ht.onward (hf.sound.addressed hq)).trans h'⟩

end Hub

/-! ### What holds at any time -/

namespace Exchange
variable {e : Exchange} {p i : Nat} {q : Publication} {s : Subscription}

/-- The subscriptions that a publication on a topic goes to if it begins now. -/
def audience (e : Exchange) (topic : String) : List Nat :=
  if e.closed then [] else (e.registry.lookup topic).getD []

/-- Subscriptions are listed in the order in which they were opened, and what they have accepted of a
    publication is a first part of what it has offered to them. -/
structure Paced (e : Exchange) : Prop where
  sorted : ∀ entry ∈ e.registry, entry.2.Pairwise (· < ·)
  targets : ∀ {p : Nat} {q : Publication}, e.publications[p]? = some q → q.targets.Pairwise (· < ·)
  failed : ∀ {p : Nat} {q : Publication} {err : TransportError}, e.publications[p]? = some q →
    q.progress = .ended (some err) → err = .closed
  offered : ∀ {p i : Nat} {q : Publication} {s : Subscription}, e.publications[p]? = some q →
    e.subscriptions[i]? = some s → s.acceptedOf p <+: q.offered i

namespace Paced

theorem new (capacity : Option Nat) : ({ capacity } : Exchange).Paced where
  sorted _ hm := nomatch hm
  targets hq := nomatch hq
  failed hq := nomatch hq
  offered hq := nomatch hq

/-- A subscription that is opened comes after all that are listed. -/
theorem enlist (h : e.Paced) (hf : e.Faithful) {topic : String} {entry : String × List Nat}
    (hm : entry ∈ e.registry.enlist topic e.subscriptions.length) : entry.2.Pairwise (· < ·) := by
  rcases Registry.mem_enlist hm with hm | ⟨l, hl, rfl⟩
  · exact h.sorted entry hm
  · have hbefore : l.Pairwise (· < ·) ∧ ∀ i ∈ l, i < e.subscriptions.length := by
      rcases hl with rfl | hl
      · exact ⟨.nil, fun _ hi => absurd hi List.not_mem_nil⟩
      · refine ⟨h.sorted _ hl, fun i hi => ?_⟩
        obtain ⟨s, hs, -⟩ := hf.sound.listed _ hl i hi
        exact (List.getElem?_eq_some_iff.mp hs).1
    refine List.pairwise_append.mpr ⟨hbefore.1, List.pairwise_singleton _ _, fun i hi j hj => ?_⟩
    rw [List.mem_singleton.mp hj]
    exact hbefore.2 i hi

/-- A subscription whose reader is gone gets nothing, and neither does anybody of a publication that has failed. -/
theorem acceptedOf_kept {h : Hub} {o : Hub.Op} {q' : Publication} {s' : Subscription}
    (hq : h.exchange.publications[p]? = some q) (ht : Hub.Turn h.exchange q q') (hc : Hub.Changes h i s o s')
    (hgone : ¬(s'.dropped = false ∧ ∀ err, q'.progress ≠ .ended (some err))) : s'.acceptedOf p = s.acceptedOf p := by
  rcases hc.accepted with ha | ⟨p', q₁, m, rest, ahead, rfl, hq₁, hp, hopen, hd, ha⟩
  · rw [Subscription.acceptedOf, ha]
    rfl
  · by_cases he : p' = p
    · subst he
      rw [hq] at hq₁
      cases hq₁
      refine absurd ⟨hd, fun err => ?_⟩ hgone
      cases ht with
      | stays => exact fun he => by cases hp.symm.trans he
      | passes _ => exact fun he => by cases he
      | cutShort _ hclosed => cases hopen.symm.trans hclosed
      | refused hp' _ | unheard hp' _ _ | begins hp' _ _ | finishes hp' | proceeds hp' => cases hp.symm.trans hp'
    · simp [Subscription.acceptedOf, ha, he]

theorem step {h : Hub} (hc : h.exchange.Paced) (hf : h.exchange.Faithful) (o : Hub.Op) :
    (h.step o).exchange.Paced where
  sorted entry hm := by
    cases Hub.lists h o with
    | stays hr =>
      rw [hr] at hm
      exact hc.sorted entry hm
    | enlists hr =>
      rw [hr] at hm
      exact hc.enlist hf hm
    | prunes hr =>
      rw [hr] at hm
      obtain ⟨l, hl, hsub⟩ := Registry.mem_prune hm
      exact (hc.sorted _ hl).sublist hsub
    | clears hr =>
      rw [hr] at hm
      cases hm
  targets {p q'} hq' := by
    rcases Hub.publication_back hq' with ⟨q, hq, ht⟩ | ⟨-, topic, batch, -, rfl⟩
    · cases ht with
      | stays | refused _ _ | unheard _ _ _ | finishes _ | proceeds _ | cutShort _ _ | passes _ =>
        have hsorted := hc.targets hq
        exact hsorted
      | begins _ _ hl => exact hc.sorted _ (Registry.mem_of_lookup hl)
    · exact .nil
  failed {p q' err} hq' hp := by
    rcases Hub.publication_back hq' with ⟨q, hq, ht⟩ | ⟨-, topic, batch, -, rfl⟩
    · cases ht with
      | stays => exact hc.failed hq hp
      | refused _ _ | cutShort _ _ =>
        cases hp
        rfl
      | unheard _ _ _ | begins _ _ _ | finishes _ | proceeds _ | passes _ => cases hp
    · cases hp
  offered {p i q' s'} hq' hs' := by
    have hf' := hf.step o
    by_cases hfull : s'.dropped = false ∧ ∀ err, q'.progress ≠ .ended (some err)
    · -- While the reader is there and the publication has not failed, what it has is all that was offered.
      have hreach := hf'.fanned.reaches hq' hs' hfull.1
      exact hreach.offered (fun _ _ hp => ((hf'.sound.addressed hq').sending hp).2) hfull.2 ▸ List.prefix_rfl
    rcases Hub.changes hs' with ⟨s, hs, hchange⟩ | ⟨-, k, a, -, -, rfl⟩
    · -- It gets nothing in this step, so what it has was offered before.
      rcases Hub.publication_back hq' with ⟨q, hq, ht⟩ | ⟨rfl, topic, batch, rfl, rfl⟩
      · rw [acceptedOf_kept hq ht hchange hfull]
        exact (hc.offered hq hs).trans ((ht.onward (hf.sound.addressed hq)).offered i)
      · cases hchange
        rw [hf.fanned.unborn (Nat.le_refl _) hs]
        exact List.nil_prefix
    · exact List.nil_prefix

end Paced
end Exchange

/-! ### Publications from their beginning on -/

namespace Hub
open Exchange
variable {h : Hub} {o : Op} {capacity : Option Nat} {p p' i j : Nat} {s s' t : Subscription} {q : Publication}

theorem Reachable.faithful (hr : Reachable capacity h) : h.exchange.Faithful := by
  induction hr with
  | start => exact .new capacity
  | step o _ ih => exact ih.step o

theorem Reachable.paced (hr : Reachable capacity h) : h.exchange.Paced := by
  induction hr with
  | start => exact .new capacity
  | step o hr ih => exact ih.step hr.faithful o

theorem returned?_eq {e : Exchange} {r : Option TransportError} (hq : e.publications[p]? = some q) :
    e.returned? p = some r ↔ q.progress = .ended r := by
  unfold returned?
  rw [hq]
  obtain ⟨topic, batch, targets, missed, progress⟩ := q
  cases progress <;> simp

theorem audience_on {e : Exchange} {topic : String} (hs : e.Sound) (hi : i ∈ e.audience topic) : e.IsOn i topic := by
  unfold audience at hi
  split at hi
  · cases hi
  · cases hl : e.registry.lookup topic with
    | none =>
      rw [hl] at hi
      cases hi
    | some l =>
      rw [hl] at hi
      exact hs.listed _ (Registry.mem_of_lookup hl) i hi

theorem mem_audience {e : Exchange} (hl : e.Listed) (hc : e.closed = false) (hs : e.subscriptions[i]? = some s)
    (hd : s.dropped = false) : i ∈ e.audience s.topic := by
  obtain ⟨l, hfound, hi⟩ := hl.present hc hs hd
  rw [audience, hc, hfound]
  exact hi

theorem acceptedOf_eq_nil {e : Exchange} (hp : e.Paced) (hq : e.publications[p]? = some q)
    (hs : e.subscriptions[i]? = some s) (hi : i ∉ q.targets) : s.acceptedOf p = [] :=
  List.prefix_nil.mp (Publication.offered_of_not_mem hi ▸ hp.offered hq hs)

/-- While a publication is under way, none of its targets is behind a later one, nor more than one message
    ahead. -/
theorem acceptedOf_paced {e : Exchange} (hf : e.Faithful) (hp : e.Paced) (hq : e.publications[p]? = some q)
    (hb : q.progress ≠ .fresh) (hr : e.returned? p = none) (hi : i ∈ q.targets) (hj : j ∈ q.targets) (hij : i < j)
    (hs : e.subscriptions[i]? = some s) (ht : e.subscriptions[j]? = some t) (hds : s.dropped = false)
    (hdt : t.dropped = false) : (t.acceptedOf p).length ≤ (s.acceptedOf p).length ∧
      (s.acceptedOf p).length ≤ (t.acceptedOf p).length + 1 := by
  have hne : ∀ r, q.progress ≠ .ended r := fun r he => by
    rw [(returned?_eq hq).mpr he] at hr
    cases hr
  have hahead : ∀ rest ahead, q.progress = .sending rest ahead → ahead <:+ q.targets := fun _ _ h =>
    ((hf.sound.addressed hq).sending h).2
  rw [(hf.fanned.reaches hq hs hds).offered hahead fun _ => hne _,
    (hf.fanned.reaches hq ht hdt).offered hahead fun _ => hne _]
  cases h : q.progress with
  | fresh => exact absurd h hb
  | ended r => exact absurd h (hne r)
  | sending rest ahead => exact Publication.offered_paced h (hahead _ _ h) (hp.targets hq) hi hj hij

/-- Nobody has got anything of a publication that has not begun. -/
theorem before_fresh {e : Exchange} (hf : e.Faithful) (hp : e.Paced) (hs : e.subscriptions[i]? = some s)
    (hfresh : ∀ q', e.publications[p']? = some q' → q'.progress = .fresh) : s.Before p p' := by
  have hnil : s.acceptedOf p' = [] := by
    cases hq : e.publications[p']? with
    | none => exact hf.fanned.unborn (List.getElem?_eq_none_iff.mp hq) hs
    | some q =>
      refine acceptedOf_eq_nil hp hq hs ?_
      rw [hf.fanned.fresh hq (hfresh q hq)]
      exact List.not_mem_nil
  have hnone : ∀ a ∈ s.accepted, a.1 ≠ p' := by
    simpa [Subscription.acceptedOf] using hnil
  exact List.pairwise_of_forall_mem_list fun a ha _ _ he => absurd he (hnone a ha)

/-- What has returned gives nothing to anybody any more. -/
theorem acceptedOf_ended {r : Option TransportError} (hq : h.exchange.publications[p]? = some q)
    (hp : q.progress = .ended r) (hs : h.exchange.subscriptions[i]? = some s) (ops : List Op) :
    ∃ s', (h.run ops).exchange.subscriptions[i]? = some s' ∧ s'.acceptedOf p = s.acceptedOf p := by
  induction ops generalizing h s with
  | nil => exact ⟨s, hs, rfl⟩
  | cons o ops ih =>
    obtain ⟨s₁, hs₁, hchange⟩ := changed hs o
    obtain ⟨s', hs', heq⟩ := ih (publication_ended hq hp o) hs₁
    refine ⟨s', hs', heq.trans ?_⟩
    rcases hchange.accepted with ha | ⟨p', q', m, rest, ahead, rfl, hq', hp', -, -, ha⟩
    · rw [Subscription.acceptedOf, ha]
      rfl
    · have hne : p' ≠ p := by
        rintro rfl
        rw [hq] at hq'
        cases hq'
        cases hp.symm.trans hp'
      simp [Subscription.acceptedOf, ha, hne]

theorem before_run {r : Option TransportError} (hq : h.exchange.publications[p]? = some q)
    (hp : q.progress = .ended r)
    (hb : ∀ (i : Nat) (s : Subscription), h.exchange.subscriptions[i]? = some s → s.Before p p') (ops : List Op) :
    ∀ (i : Nat) (s : Subscription), (h.run ops).exchange.subscriptions[i]? = some s → s.Before p p' := by
  induction ops generalizing h with
  | nil => exact hb
  | cons o ops ih =>
    refine ih (publication_ended hq hp o) fun i s' hs' => ?_
    rcases changes hs' with ⟨s, hs, hchange⟩ | ⟨-, k, a, -, -, rfl⟩
    · rcases hchange.accepted with ha | ⟨p₁, q₁, m, rest, ahead, rfl, hq₁, hp₁, -, -, ha⟩
      · unfold Subscription.Before
        rw [ha]
        exact hb i s hs
      · have hne : p₁ ≠ p := by
          rintro rfl
          rw [hq] at hq₁
          cases hq₁
          exact nomatch hp.symm.trans hp₁
        unfold Subscription.Before
        rw [ha]
        refine List.pairwise_append.mpr ⟨hb i s hs, List.pairwise_singleton _ _, fun a _ b hmem _ => ?_⟩
        rw [List.mem_singleton.mp hmem]
        exact hne
    · exact .nil

/-- What has become in `h'` of publication `p`, which was about to begin in `h`. -/
structure FansOut (h : Hub) (p : Nat) (q : Publication) (h' : Hub) : Prop where
  audience : h.exchange.closed = false → ∀ {i : Nat} {s : Subscription}, h.exchange.subscriptions[i]? = some s →
    (i ∈ h.exchange.audience q.topic → s.topic = q.topic) ∧
    (s.topic = q.topic → s.dropped = false → i ∈ h.exchange.audience q.topic)
  prefixes : ∀ {i : Nat} {s : Subscription}, h'.exchange.subscriptions[i]? = some s → s.acceptedOf p <+: q.messages
  /-- While it is under way, a subscription is at most one message ahead of the later ones. -/
  paced : h'.exchange.returned? p = none → ∀ {i j : Nat} {s t : Subscription}, i ∈ h.exchange.audience q.topic →
    j ∈ h.exchange.audience q.topic → i < j → h'.exchange.subscriptions[i]? = some s →
    h'.exchange.subscriptions[j]? = some t → s.dropped = false → t.dropped = false →
    (t.acceptedOf p).length ≤ (s.acceptedOf p).length ∧ (s.acceptedOf p).length ≤ (t.acceptedOf p).length + 1
  complete : h'.exchange.returned? p = some none → ∀ {i : Nat} {s : Subscription}, i ∈ h.exchange.audience q.topic →
    h'.exchange.subscriptions[i]? = some s → s.dropped = false → s.acceptedOf p = q.messages
  failed : ∀ {err : TransportError}, h'.exchange.returned? p = some (some err) → err = .closed
  /-- Whatever it has returned, nothing is added later. -/
  final : ∀ {r : Option TransportError}, h'.exchange.returned? p = some r → ∀ (ops : List Op) {i : Nat}
    {s s' : Subscription}, h'.exchange.subscriptions[i]? = some s →
    (h'.run ops).exchange.subscriptions[i]? = some s' → s'.acceptedOf p = s.acceptedOf p
  /-- Subscriptions opened after it began, and those on other topics, get nothing of it. -/
  others : ∀ {i : Nat} {s : Subscription}, h'.exchange.subscriptions[i]? = some s →
    i ∉ h.exchange.audience q.topic ∨ h.exchange.subscriptions.length ≤ i ∨ s.topic ≠ q.topic → s.acceptedOf p = []
  /-- When it has returned, what has not begun by then comes behind it. -/
  precedes : ∀ {r : Option TransportError}, h'.exchange.returned? p = some r → ∀ {p' : Nat},
    (∀ q', h'.exchange.publications[p']? = some q' → q'.progress = .fresh) → ∀ (ops : List Op) {i : Nat}
    {s : Subscription}, (h'.run ops).exchange.subscriptions[i]? = some s → s.Before p p'
  queued : ∀ {i : Nat} {s : Subscription}, h'.exchange.subscriptions[i]? = some s → s.Ordered

/-- In its first turn a publication begins for those who are listed, or returns if there is nobody. -/
theorem begins (hr : Reachable capacity h) (hq : h.exchange.publications[p]? = some q) (hf : q.progress = .fresh) :
    ∃ q', (h.step (.advance p)).exchange.publications[p]? = some q' ∧ q.Onward q' ∧ q'.progress ≠ .fresh ∧
      q'.targets = h.exchange.audience q.topic := by
  have hnone := hr.faithful.fanned.fresh hq hf
  have moved : ∀ {f : Publication → Publication}, h.exchange.advance p = h.exchange.updatePublication p f →
      (h.step (.advance p)).exchange.publications[p]? = some (f q) := fun {f} he => by
    show (h.exchange.advance p).publications[p]? = some (f q)
    rw [he, publication?_update hq, if_pos rfl]
  cases hc : h.exchange.closed with
  | true =>
    refine ⟨_, moved (f := fun q => { q with progress := .ended (some .closed) }) ?_, .begins hf rfl rfl, nofun, ?_⟩
    · simp only [advance, hq, hf, hc, if_true]
      rfl
    · rw [Exchange.audience, hc]
      exact hnone
  | false =>
    cases hl : h.exchange.registry.lookup q.topic with
    | none =>
      refine ⟨_, moved (f := fun q => { q with progress := .ended none }) ?_, .begins hf rfl rfl, nofun, ?_⟩
      · simp only [advance, hq, hf, hc, hl, Bool.false_eq_true, if_false]
        rfl
      · rw [Exchange.audience, hc, hl]
        exact hnone
    | some targets =>
      refine ⟨_, moved (f := fun q =>
        { q with targets, progress := .sending (q.batch.map (·.onTopic q.topic)) targets }) ?_, .begins hf rfl rfl,
        nofun, ?_⟩
      · simp only [advance, hq, hf, hc, hl, Bool.false_eq_true, if_false]
      · rw [Exchange.audience, hc, hl]
        rfl

/-- Prefix-atomic fan-out. From its first turn on, whatever else happens, a publication has put a first part
    of its batch into the queue of each subscription that was listed under its topic then, and nothing into
    the others. As long as it is under way, none of those whose reader is there is behind a later one, nor
    more than one message ahead; when it has returned without an error they all have the whole batch; when
    it has returned at all nobody gets anything more, and it had no other error than that the exchange is
    closed. What begins after it has returned comes behind it in every queue. -/
theorem fan_out (hr : Reachable capacity h) (hq : h.exchange.publications[p]? = some q) (hf : q.progress = .fresh)
    (ops : List Op) : h.FansOut p q ((h.step (.advance p)).run ops) := by
  obtain ⟨q₁, hq₁, h₁, hbegun, haudience⟩ := begins hr hq hf
  obtain ⟨q', hq', h'⟩ := onward_run (hr.faithful.step _) hq₁ ops
  have hr' : Reachable capacity ((h.step (.advance p)).run ops) := (hr.step (.advance p)).run ops
  have htargets : q'.targets = h.exchange.audience q.topic := (h'.begun hbegun).2.trans haudience
  have hmessages : q'.messages = q.messages := h'.messages.trans h₁.messages
  have hfaithful := hr'.faithful
  have hpaced := hr'.paced
  have hlater := (step_evolves h (.advance p)).trans (run_evolves (h.step (.advance p)) ops)
  generalize (h.step (.advance p)).run ops = x at hq' hfaithful hpaced hlater
  exact {
    audience := fun hc {i s} hs => by
      refine ⟨fun hi => ?_, fun ht hd => ht ▸ mem_audience hr.faithful.listed hc hs hd⟩
      obtain ⟨s', hs', ht⟩ := audience_on hr.faithful.sound hi
      rw [hs] at hs'
      cases hs'
      exact ht
    prefixes := fun hs => hmessages ▸ (hpaced.offered hq' hs).trans (Publication.offered_prefix q' _)
    paced := fun hreturned {i j s t} hi hj => acceptedOf_paced hfaithful hpaced hq' (h'.begun hbegun).1 hreturned
      (htargets ▸ hi) (htargets ▸ hj)
    complete := fun hreturned {i s} hi hs hd => by
      have hall := (hfaithful.fanned.reaches hq' hs hd).ended ((returned?_eq hq').mp hreturned)
      rw [← hmessages]
      exact (hall.resolve_left fun hn => hn.1 (htargets ▸ hi)).2
    failed := fun hreturned => hpaced.failed hq' ((returned?_eq hq').mp hreturned)
    final := fun {r} hreturned ops {i s s'} hs hs' => by
      obtain ⟨s₁, hs₁, heq⟩ := acceptedOf_ended hq' ((returned?_eq hq').mp hreturned) hs ops
      rw [hs'] at hs₁
      cases hs₁
      exact heq
    others := fun {i s} hs hout => by
      refine acceptedOf_eq_nil hpaced hq' hs fun hi => ?_
      rw [htargets] at hi
      obtain ⟨s₀, hs₀, ht⟩ := audience_on hr.faithful.sound hi
      rcases hout with hout | hout | hout
      · exact hout hi
      · exact absurd (List.getElem?_eq_some_iff.mp hs₀).1 (Nat.not_lt_of_le hout)
      · obtain ⟨s', hs', ht', -⟩ := hlater.subscription hs₀
        rw [hs] at hs'
        cases hs'
        exact hout (ht'.trans ht)
    precedes := fun {r} hreturned {p'} hfresh ops {i s} hs =>
      before_run hq' ((returned?_eq hq').mp hreturned) (fun _ _ ht => before_fresh hfaithful hpaced ht hfresh)
        ops i s hs
    queued := fun hs => hfaithful.sound.ordered hs }

def pair : Publication := { topic := "t", batch := [{ id := "a", payload := [] }, { id := "b", payload := [] }] }

/-- Two subscriptions with one place each, and a publication of two messages. -/
def twoListening : Hub :=
  (start (some 1)).run
    [.token, .subscribe 0 "t", .subscribe 0 "t", .register 0, .register 0, .publish pair.topic pair.batch]

/-- Both have got the first message, and the first of them has read it and got the second one. -/
def halfway : Hub := (twoListening.step (.advance 0)).run (List.replicate 4 (.advance 0) ++ [.poll 0, .advance 0])

theorem fan_out_halfway : twoListening.exchange.publications[0]? = some pair ∧ pair.progress = .fresh ∧
    twoListening.FansOut 0 pair halfway ∧
    halfway.exchange.subscriptions.map (fun s => (s.acceptedOf 0).map (·.id)) = [["a", "b"], ["a"]] :=
  ⟨rfl, rfl, fan_out (Reachable.start.run _) rfl rfl _, rfl⟩

end Hub
end Relay
