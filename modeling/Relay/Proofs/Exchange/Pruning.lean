import Mathlib.Data.List.Forall2
import Relay.Proofs.Exchange.Streams

/-! Pruning cannot be told from outside. Two exchanges that differ in their lists only by streams whose readers have
    gone go on alike, whatever is done to them: a publication of the one passes over a stream that the publication
    of the other never meets, so that it may need another number of turns, but every message is put into the same
    queue behind the same messages. The relation between the two is symmetric. -/

namespace Relay

theorem forall₂_modify {α β : Type} {R R' : α → β → Prop} {f : α → α} {g : β → β} {l : List α} {l' : List β} {p : Nat}
    (h : List.Forall₂ R l l') (hkeep : ∀ a b, R a b → R' a b)
    (hnew : ∀ a b, l[p]? = some a → l'[p]? = some b → R a b → R' (f a) (g b)) :
    List.Forall₂ R' (l.modify p f) (l'.modify p g) := by
  induction h generalizing p with
  | nil => simp
  | @cons a b l l' hab hl ih =>
    cases p with
    | zero => exact .cons (hnew a b rfl rfl hab) (hl.imp hkeep)
    | succ p => exact .cons (hkeep a b hab) (ih hnew)

namespace Exchange
variable {e e' e₁ : Exchange} {p s : Nat} {q q' : Publication} {l l' ahead ahead' : List Nat} {m : Message}
  {rest : List Message} {topic : String}

/-! ### Lists that differ by streams whose readers have gone -/

/-- Whether this is a subscription whose reader has gone. -/
def isGone (e : Exchange) (i : Nat) : Bool := (e.subscriptions[i]?).any (·.dropped)

/-- Two lists with the same subscriptions in the same order, but for those whose readers have gone. -/
def Agree (e : Exchange) (l l' : List Nat) : Prop := (l.filter fun i => !e.isGone i) = l'.filter fun i => !e.isGone i

namespace Agree

theorem refl (e : Exchange) (l : List Nat) : e.Agree l l := rfl

theorem symm (h : e.Agree l l') : e.Agree l' l := Eq.symm h

theorem trans {l'' : List Nat} (h : e.Agree l l') (h' : e.Agree l' l'') : e.Agree l l'' := Eq.trans h h'

/-- A reader that has gone does not come back. -/
theorem mono (h : e.Agree l l') (hg : ∀ i, e.isGone i = true → e'.isGone i = true) : e'.Agree l l' := by
  have hboth : ∀ l : List Nat, (l.filter fun i => !e'.isGone i) =
      (l.filter fun i => !e.isGone i).filter fun i => !e'.isGone i := by
    intro l
    rw [List.filter_filter]
    refine List.filter_congr ?_
    intro i _
    cases hi : e.isGone i <;> simp [hg i, hi]
  rw [Agree, hboth l, hboth l', h]

theorem append (h : e.Agree l l') (l₁ : List Nat) : e.Agree (l ++ l₁) (l' ++ l₁) := by
  rw [Agree, List.filter_append, List.filter_append, h]

theorem cons_gone (hs : e.isGone s = true) : e.Agree (s :: l) l' ↔ e.Agree l l' := by simp [Agree, hs]

/-- Those that are there come in the same order in both. -/
theorem of_cons_cons (h : e.Agree (s :: l) (s :: l')) : e.Agree l l' := by
  cases hs : e.isGone s <;> simpa [Agree, hs] using h

theorem isGone_of_nil (h : e.Agree (s :: l) []) : e.isGone s = true := by
  cases hs : e.isGone s
  · simp [Agree, hs] at h
  · rfl

/-- The first that is there in the one is the first in the other, if that begins with one that is there. -/
theorem head (h : e.Agree (s :: l) l') (hs : e.isGone s = false) (hhead : ∀ i ∈ l'.head?, e.isGone i = false) :
    ∃ l₁, l' = s :: l₁ := by
  cases l' with
  | nil => exact nomatch hs.symm.trans h.isGone_of_nil
  | cons i l₁ =>
    have hi : e.isGone i = false := hhead i rfl
    simp only [Agree, List.filter_cons, hs, hi, Bool.not_false, if_true, List.cons.injEq] at h
    exact ⟨l₁, by rw [h.1]⟩

end Agree

theorem isGone_eq_isDropped (h : e.IsOn s topic) : e.isGone s = e.isDropped s := by
  obtain ⟨sub, hsub, -⟩ := h
  simp [isGone, isDropped, hsub]

theorem Sound.filter_isDropped (h : e.Sound) (topic : String) :
    ((e.listed topic).filter fun i => !e.isDropped i) = (e.listed topic).filter fun i => !e.isGone i :=
  List.filter_congr fun _ hi => by rw [isGone_eq_isDropped (h.isOn_of_mem_listed hi)]

/-- What a publication leaves when it has returned. -/
def afterReturn (e : Exchange) (q : Publication) : Exchange :=
  if q.missed then { e with registry := e.registry.prune q.topic fun s => !e.isDropped s } else e

theorem agree_listed_prune (hw : e.WellListed) (t : String) :
    e.Agree (({ e with registry := e.registry.prune t fun s => !e.isDropped s } : Exchange).listed topic)
      (e.listed topic) := by
  rw [listed_prune hw.neat]
  split
  · rw [hw.sound.filter_isDropped, Agree, List.filter_filter]
    simp
  · exact .refl e _

/-! ### Publications that differ by streams whose readers have gone -/

/-- A publication that has nobody to send to any more. -/
def Spent (e : Exchange) (q : Publication) : Prop :=
  ∃ rest ahead, q.progress = .sending rest ahead ∧ e.Agree ahead [] ∧ e.Agree q.targets []

/-- How far two publications have come that are the same but for streams whose readers have gone. -/
inductive Pace (e : Exchange) (q q' : Publication) : Prop where
  | fresh : q.progress = .fresh → q'.progress = .fresh → Pace e q q'
  | sending {rest : List Message} {ahead ahead' : List Nat} : q.progress = .sending rest ahead →
      q'.progress = .sending rest ahead' → e.Agree ahead ahead' → e.Agree q.targets q'.targets → Pace e q q'
  | ended {r : Option TransportError} : q.progress = .ended r → q'.progress = .ended r → Pace e q q'
  /-- The one still goes through its streams, the other found none listed. -/
  | lags : e.Spent q → q'.progress = .ended none → Pace e q q'
  | leads : q.progress = .ended none → e.Spent q' → Pace e q q'

structure Peers (e : Exchange) (q q' : Publication) : Prop where
  topic : q'.topic = q.topic
  batch : q'.batch = q.batch
  pace : e.Pace q q'

theorem Spent.mono (h : e.Spent q) (hg : ∀ i, e.isGone i = true → e'.isGone i = true) : e'.Spent q := by
  obtain ⟨rest, ahead, hp, ha, ht⟩ := h
  exact ⟨rest, ahead, hp, ha.mono hg, ht.mono hg⟩

namespace Peers

theorem refl (e : Exchange) (q : Publication) : e.Peers q q := by
  refine ⟨rfl, rfl, ?_⟩
  cases hp : q.progress with
  | fresh => exact .fresh hp hp
  | sending rest ahead => exact .sending hp hp (.refl e _) (.refl e _)
  | ended r => exact .ended hp hp

theorem symm (h : e.Peers q q') : e.Peers q' q := by
  refine ⟨h.topic.symm, h.batch.symm, ?_⟩
  cases h.pace with
  | fresh hp hp' => exact .fresh hp' hp
  | sending hp hp' ha ht => exact .sending hp' hp ha.symm ht.symm
  | ended hp hp' => exact .ended hp' hp
  | lags hs hp' => exact .leads hp' hs
  | leads hp hs => exact .lags hs hp

theorem mono (h : e.Peers q q') (hg : ∀ i, e.isGone i = true → e'.isGone i = true) : e'.Peers q q' := by
  refine ⟨h.topic, h.batch, ?_⟩
  cases h.pace with
  | fresh hp hp' => exact .fresh hp hp'
  | sending hp hp' ha ht => exact .sending hp hp' (ha.mono hg) (ht.mono hg)
  | ended hp hp' => exact .ended hp hp'
  | lags hs hp' => exact .lags (hs.mono hg) hp'
  | leads hp hs => exact .leads hp (hs.mono hg)

end Peers

/-! ### Exchanges that differ by streams whose readers have gone -/

/-- Two open exchanges that are the same but for listed streams whose readers have gone. -/
structure Abreast (e e' : Exchange) : Prop where
  capacity : e'.capacity = e.capacity
  opened : e.closed = false
  opened' : e'.closed = false
  clearing : e'.clearing = e.clearing
  admitted : e'.admitted = e.admitted
  subscriptions : e'.subscriptions = e.subscriptions
  listed : ∀ topic, e.Agree (e.listed topic) (e'.listed topic)
  publications : List.Forall₂ e.Peers e.publications e'.publications

theorem isGone_congr (h : e'.subscriptions = e.subscriptions) : e'.isGone = e.isGone := by
  unfold isGone
  rw [h]

theorem isGone_updateSubscription {f : Subscription → Subscription} (hf : ∀ sub, sub.dropped = true → (f sub).dropped = true)
    (i : Nat) (h : e.isGone i = true) : (e.updateSubscription s f).isGone i = true := by
  obtain ⟨sub, hsub, hd⟩ := Option.any_eq_true _ _ |>.mp h
  rw [isGone, subscription?_update hsub, Option.any_some]
  split
  · exact hf sub hd
  · exact hd

namespace Abreast

theorem symm (h : e.Abreast e') : e'.Abreast e where
  capacity := h.capacity.symm
  opened := h.opened'
  opened' := h.opened
  clearing := h.clearing.symm
  admitted := h.admitted.symm
  subscriptions := h.subscriptions.symm
  listed topic := by
    rw [Agree, isGone_congr h.subscriptions]
    exact (h.listed topic).symm
  publications := by
    refine h.publications.flip.imp ?_
    intro q' q hpeers
    exact hpeers.symm.mono fun i hi => by rwa [isGone_congr h.subscriptions]

theorem publication (h : e.Abreast e') (hq : e.publications[p]? = some q) :
    ∃ q', e'.publications[p]? = some q' ∧ e.Peers q q' := by
  obtain ⟨hp, rfl⟩ := List.getElem?_eq_some_iff.mp hq
  have hp' : p < e'.publications.length := h.publications.length_eq ▸ hp
  exact ⟨_, List.getElem?_eq_getElem hp', h.publications.get hp hp'⟩

theorem updateSubscription {f : Subscription → Subscription} (h : e.Abreast e')
    (hf : ∀ sub, sub.dropped = true → (f sub).dropped = true) :
    (e.updateSubscription s f).Abreast (e'.updateSubscription s f) where
  capacity := h.capacity
  opened := h.opened
  opened' := h.opened'
  clearing := h.clearing
  admitted := h.admitted
  subscriptions := by simp only [Exchange.updateSubscription, h.subscriptions]
  listed topic := (h.listed topic).mono (isGone_updateSubscription hf)
  publications := h.publications.imp fun _ _ hpeers => hpeers.mono (isGone_updateSubscription hf)

theorem updatePublication {f g : Publication → Publication} (h : e.Abreast e')
    (hfg : ∀ q q', e.publications[p]? = some q → e'.publications[p]? = some q' → e.Peers q q' →
      e.Peers (f q) (g q')) : (e.updatePublication p f).Abreast (e'.updatePublication p g) where
  capacity := h.capacity
  opened := h.opened
  opened' := h.opened'
  clearing := h.clearing
  admitted := h.admitted
  subscriptions := h.subscriptions
  listed := h.listed
  publications := forall₂_modify h.publications (fun _ _ hpeers => hpeers.mono fun _ hi => hi)
    fun q q' hq hq' hpeers => (hfg q q' hq hq' hpeers).mono fun _ hi => hi

theorem updatePublication_left {f : Publication → Publication} (h : e.Abreast e')
    (hf : ∀ q q', e.publications[p]? = some q → e'.publications[p]? = some q' → e.Peers q q' → e.Peers (f q) q') :
    (e.updatePublication p f).Abreast e' := by
  have hsame : e'.updatePublication p id = e' := by simp [Exchange.updatePublication]
  exact hsame ▸ h.updatePublication hf

theorem afterReturn_left (h : e.Abreast e') (hw : e.WellListed) (q : Publication) :
    (e.afterReturn q).Abreast e' := by
  unfold afterReturn
  split
  · refine ⟨h.capacity, h.opened, h.opened', h.clearing, h.admitted, h.subscriptions, ?_,
      h.publications.imp fun _ _ hpeers => ?_⟩
    swap
    · exact hpeers.mono fun _ hi => hi
    intro topic
    exact (agree_listed_prune hw q.topic).trans (h.listed topic)
  · exact h

end Abreast

/-! ### A turn of a publication to an open exchange -/

theorem advance_fresh (hq : e.publications[p]? = some q) (hp : q.progress = .fresh) (hc : e.closed = false) :
    e.advance p = match e.registry.lookup q.topic with
      | none => e.setProgress p (.ended none)
      | some targets => e.updatePublication p fun q =>
          { q with targets, progress := .sending (q.batch.map (·.onTopic q.topic)) targets } := by
  cases hl : e.registry.lookup q.topic <;> simp [advance, hq, hp, hc, hl]

theorem advance_ended {r : Option TransportError} (hq : e.publications[p]? = some q) (hp : q.progress = .ended r) :
    e.advance p = e := by
  simp [advance, hq, hp]

theorem advance_finishes (hq : e.publications[p]? = some q) (hp : q.progress = .sending [] ahead) :
    e.advance p = (e.afterReturn q).setProgress p (.ended none) := by
  simp [advance, hq, hp, afterReturn]

theorem advance_proceeds (hq : e.publications[p]? = some q) (hp : q.progress = .sending (m :: rest) []) :
    e.advance p = e.setProgress p (.sending rest q.targets) := by
  simp [advance, hq, hp]

theorem advance_passes (hq : e.publications[p]? = some q) (hp : q.progress = .sending (m :: rest) (s :: ahead))
    (hc : e.closed = false) (hs : e.isGone s = true) : e.advance p =
      e.updatePublication p fun q => { q with missed := true, progress := .sending (m :: rest) ahead } := by
  obtain ⟨sub, hsub, hd⟩ := Option.any_eq_true _ _ |>.mp hs
  simp [advance, send, hq, hp, hc, hsub, hd]

namespace Abreast

/-- A publication passes over a stream that the other one may not have before it. -/
theorem passes (h : e.Abreast e') (hq : e.publications[p]? = some q)
    (hp : q.progress = .sending (m :: rest) (s :: ahead)) (hs : e.isGone s = true) : (e.advance p).Abreast e' := by
  rw [advance_passes hq hp h.opened hs]
  refine h.updatePublication_left ?_
  intro q₁ q' hq₁ hq' hpeers
  rw [hq] at hq₁
  cases hq₁
  refine ⟨hpeers.topic, hpeers.batch, ?_⟩
  cases hpeers.pace with
  | fresh hp' _ | ended hp' _ | leads hp' _ => exact nomatch hp.symm.trans hp'
  | sending hp₁ hp' ha ht =>
    cases hp.symm.trans hp₁
    exact .sending rfl hp' ((Agree.cons_gone hs).mp ha) ht
  | lags hspent hp' =>
    obtain ⟨rest₁, ahead₁, hp₁, ha, ht⟩ := hspent
    cases hp.symm.trans hp₁
    exact .lags ⟨_, _, rfl, (Agree.cons_gone hs).mp ha, ht⟩ hp'

/-- A publication comes to the first stream before it that is there, if there is one. -/
theorem catchesUp (h : e.Abreast e') (hq' : e'.publications[p]? = some q')
    (hp' : q'.progress = .sending (m :: rest) ahead') :
    ∃ n q₁ ahead₁, e.Abreast ((advance · p)^[n] e') ∧ ((advance · p)^[n] e').publications[p]? = some q₁ ∧
      q₁.progress = .sending (m :: rest) ahead₁ ∧ ∀ s ∈ ahead₁.head?, e.isGone s = false := by
  induction ahead' generalizing e' q' with
  | nil => exact ⟨0, q', [], h, hq', hp', by simp⟩
  | cons s ahead' ih =>
    cases hs : e.isGone s with
    | false => exact ⟨0, q', s :: ahead', h, hq', hp', by simpa using hs⟩
    | true =>
      have hs' : e'.isGone s = true := by rwa [isGone_congr h.subscriptions]
      have hnext := h.symm.passes hq' hp' hs'
      have hq₁ : (e'.advance p).publications[p]? =
          some { q' with missed := true, progress := .sending (m :: rest) ahead' } := by
        rw [advance_passes hq' hp' h.opened' hs', publication?_update hq', if_pos rfl]
      obtain ⟨n, q₁, ahead₁, hn⟩ := ih hnext.symm hq₁ rfl
      exact ⟨n + 1, q₁, ahead₁, hn⟩

/-- Two publications that stand before the same stream do the same there. -/
theorem sends (h : e.Abreast e') (hq : e.publications[p]? = some q) (hq' : e'.publications[p]? = some q')
    (hp : q.progress = .sending (m :: rest) (s :: ahead)) (hp' : q'.progress = .sending (m :: rest) (s :: ahead'))
    (hs : e.isGone s = false) : (e.advance p).Abreast (e'.advance p) := by
  obtain ⟨q₁, hq₁, hpeers⟩ := h.publication hq
  rw [hq'] at hq₁
  cases hq₁
  -- Both go on to the next stream.
  have onward : ∀ {e₁ e₁' : Exchange}, e₁.Abreast e₁' → e₁.publications = e.publications →
      e₁'.publications = e'.publications → (∀ l l', e.Agree l l' → e₁.Agree l l') →
      (e₁.setProgress p (.sending (m :: rest) ahead)).Abreast (e₁'.setProgress p (.sending (m :: rest) ahead')) := by
    intro e₁ e₁' h₁ hpubs hpubs' hagree
    refine h₁.updatePublication ?_
    intro q₂ q₂' hq₂ hq₂' _
    rw [hpubs, hq] at hq₂
    rw [hpubs', hq'] at hq₂'
    cases hq₂
    cases hq₂'
    refine ⟨hpeers.topic, hpeers.batch, ?_⟩
    cases hpeers.pace with
    | fresh hp₁ _ | ended hp₁ _ | leads hp₁ _ => exact nomatch hp.symm.trans hp₁
    | lags _ hp₁ => exact nomatch hp'.symm.trans hp₁
    | sending hp₁ hp₁' ha ht =>
      cases hp.symm.trans hp₁
      cases hp'.symm.trans hp₁'
      exact .sending rfl rfl (hagree _ _ ha.of_cons_cons) (hagree _ _ ht)
  have hadvance : e.advance p = e.send p m rest s ahead := by simp [advance, hq, hp]
  have hadvance' : e'.advance p = e'.send p m rest s ahead' := by simp [advance, hq', hp']
  have hroom : ∀ sub, e'.hasRoom sub = e.hasRoom sub := fun sub => by simp [hasRoom, h.capacity]
  rw [hadvance, hadvance']
  unfold send
  rw [h.opened, h.opened', h.subscriptions]
  simp only [Bool.false_eq_true, if_false, hroom]
  cases hsub : e.subscriptions[s]? with
  | none => exact onward h rfl rfl fun _ _ => id
  | some sub =>
    have hd : sub.dropped = false := by simpa [isGone, hsub] using hs
    simp only [hd, Bool.false_eq_true, if_false]
    split
    · refine onward (h.updateSubscription fun _ hd => hd) rfl rfl ?_
      intro l l' hl
      exact hl.mono (isGone_updateSubscription fun _ hd => hd)
    · split
      · exact h
      · exact h.updateSubscription fun _ hd => hd

/-- Two publications that have found their streams, or none. -/
theorem begins (h : e.Abreast e') (hq : e.publications[p]? = some q) (hq' : e'.publications[p]? = some q')
    (hp : q.progress = .fresh) (hp' : q'.progress = .fresh) : (e.advance p).Abreast (e'.advance p) := by
  obtain ⟨q₁, hq₁, hpeers⟩ := h.publication hq
  rw [hq'] at hq₁
  cases hq₁
  rw [advance_fresh hq hp h.opened, advance_fresh hq' hp' h.opened', hpeers.topic]
  have hlisted := h.listed q.topic
  unfold Exchange.listed at hlisted
  -- What is left is how far the two have come.
  have both : ∀ {f g : Publication → Publication}, (∀ q, (f q).topic = q.topic ∧ (f q).batch = q.batch) →
      (∀ q, (g q).topic = q.topic ∧ (g q).batch = q.batch) → e.Pace (f q) (g q') →
      (e.updatePublication p f).Abreast (e'.updatePublication p g) := by
    intro f g hf hg hpace
    refine h.updatePublication ?_
    intro q₂ q₂' hq₂ hq₂' _
    rw [hq] at hq₂
    rw [hq'] at hq₂'
    cases hq₂
    cases hq₂'
    refine ⟨?_, ?_, hpace⟩
    · rw [(hf q).1, (hg q').1, hpeers.topic]
    · rw [(hf q).2, (hg q').2, hpeers.batch]
  cases hl : e.registry.lookup q.topic <;> cases hl' : e'.registry.lookup q.topic <;>
    simp only [hl, hl', Option.getD_none, Option.getD_some] at hlisted <;>
    refine both (fun _ => ⟨rfl, rfl⟩) (fun _ => ⟨rfl, rfl⟩) ?_
  · exact .ended rfl rfl
  · exact .leads rfl ⟨_, _, rfl, hlisted.symm, hlisted.symm⟩
  · exact .lags ⟨_, _, rfl, hlisted, hlisted⟩ rfl
  · refine .sending rfl ?_ hlisted hlisted
    rw [hpeers.topic, hpeers.batch]

/-- A publication returns, and leaves nothing behind but the lists. -/
theorem finishes {g : Publication → Publication} (h : e.Abreast e') (hw : e.WellListed)
    (hq : e.publications[p]? = some q) (hq' : e'.publications[p]? = some q') (hp : q.progress = .sending [] ahead)
    (hg : ∀ q, (g q).topic = q.topic ∧ (g q).batch = q.batch) (hp' : (g q').progress = .ended none) :
    (e.advance p).Abreast (e'.updatePublication p g) := by
  rw [advance_finishes hq hp]
  have hpubs : (e.afterReturn q).publications = e.publications := by
    unfold afterReturn
    split <;> rfl
  refine (h.afterReturn_left hw q).updatePublication ?_
  intro q₁ q₁' hq₁ hq₁' hpeers
  rw [hpubs, hq] at hq₁
  rw [hq'] at hq₁'
  cases hq₁
  cases hq₁'
  exact ⟨(hg q').1.trans hpeers.topic, (hg q').2.trans hpeers.batch, .ended rfl hp'⟩

/-- A publication that has nobody left to send to makes no difference. -/
theorem spends (h : e.Abreast e') (hw : e.WellListed) (hq : e.publications[p]? = some q)
    (hq' : e'.publications[p]? = some q') (hspent : e.Spent q) (hp' : q'.progress = .ended none) :
    (e.advance p).Abreast e' := by
  obtain ⟨rest, ahead, hp, ha, ht⟩ := hspent
  cases rest with
  | nil =>
    have hsame : e'.updatePublication p id = e' := by simp [Exchange.updatePublication]
    exact hsame ▸ h.finishes hw hq hq' hp (fun _ => ⟨rfl, rfl⟩) hp'
  | cons m rest =>
    cases ahead with
    | cons s ahead => exact h.passes hq hp ha.isGone_of_nil
    | nil =>
      rw [advance_proceeds hq hp]
      refine h.updatePublication_left ?_
      intro q₁ q₁' hq₁ hq₁' hpeers
      rw [hq] at hq₁
      rw [hq'] at hq₁'
      cases hq₁
      cases hq₁'
      exact ⟨hpeers.topic, hpeers.batch, .lags ⟨_, _, rfl, ht, ht⟩ hp'⟩

/-- Two publications go through their streams with the same messages left to send. -/
theorem goes (h : e.Abreast e') (hw : e.WellListed) (hw' : e'.WellListed)
    (hq : e.publications[p]? = some q) (hq' : e'.publications[p]? = some q') (hp : q.progress = .sending rest ahead)
    (hp' : q'.progress = .sending rest ahead') : ∃ n, (e.advance p).Abreast ((advance · p)^[n] e') := by
  cases rest with
  | nil =>
    have hpubs : (e'.afterReturn q').publications[p]? = some q' := by
      unfold afterReturn
      split <;> exact hq'
    refine ⟨1, ?_⟩
    rw [Function.iterate_one, advance_finishes hq' hp']
    exact (h.symm.afterReturn_left hw' q').symm.finishes hw hq hpubs hp (fun _ => ⟨rfl, rfl⟩) rfl
  | cons m rest =>
    -- The other one first passes over what it has before it alone.
    obtain ⟨n, q₁, ahead₁, h₁, hq₁, hp₁, hhead⟩ := h.catchesUp hq' hp'
    obtain ⟨q₂, hq₂, hpeers⟩ := h₁.publication hq
    rw [hq₁] at hq₂
    cases hq₂
    obtain ⟨ha, ht⟩ : e.Agree ahead ahead₁ ∧ e.Agree q.targets q₁.targets := by
      cases hpeers.pace with
      | fresh hp₂ _ | ended hp₂ _ | leads hp₂ _ => exact nomatch hp.symm.trans hp₂
      | lags _ hp₂ => exact nomatch hp₁.symm.trans hp₂
      | sending hp₂ hp₂' ha ht =>
        cases hp.symm.trans hp₂
        cases hp₁.symm.trans hp₂'
        exact ⟨ha, ht⟩
    cases ahead with
    | nil =>
      obtain rfl : ahead₁ = [] := by
        cases ahead₁ with
        | nil => rfl
        | cons s ahead₁ => exact nomatch (hhead s rfl).symm.trans ha.symm.isGone_of_nil
      refine ⟨n + 1, ?_⟩
      rw [Function.iterate_succ_apply', advance_proceeds hq hp, advance_proceeds hq₁ hp₁]
      refine h₁.updatePublication ?_
      intro q₂ q₂' hq₂ hq₂' _
      rw [hq] at hq₂
      rw [hq₁] at hq₂'
      cases hq₂
      cases hq₂'
      exact ⟨hpeers.topic, hpeers.batch, .sending rfl rfl ht ht⟩
    | cons s ahead =>
      cases hgone : e.isGone s with
      | true => exact ⟨n, h₁.passes hq hp hgone⟩
      | false =>
        obtain ⟨ahead₂, rfl⟩ : ∃ ahead₂, ahead₁ = s :: ahead₂ := ha.head hgone hhead
        refine ⟨n + 1, ?_⟩
        rw [Function.iterate_succ_apply']
        exact h₁.sends hq hq₁ hp hp₁ hgone

/-- What a publication to the one does in its turn, its peer does in some number of turns. -/
theorem advance (h : e.Abreast e') (hw : e.WellListed) (hw' : e'.WellListed)
    (p : Nat) : ∃ n, (e.advance p).Abreast ((advance · p)^[n] e') := by
  cases hq : e.publications[p]? with
  | none =>
    refine ⟨0, ?_⟩
    rw [Exchange.advance, hq]
    exact h
  | some q =>
    obtain ⟨q', hq', hpeers⟩ := h.publication hq
    cases hpeers.pace with
    | fresh hp hp' => exact ⟨1, h.begins hq hq' hp hp'⟩
    | sending hp hp' _ _ => exact h.goes hw hw' hq hq' hp hp'
    | lags hspent hp' => exact ⟨0, h.spends hw hq hq' hspent hp'⟩
    | ended hp _ | leads hp _ =>
      refine ⟨0, ?_⟩
      rw [advance_ended hq hp]
      exact h

end Abreast
end Exchange
end Relay
