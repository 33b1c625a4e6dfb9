import Relay.Proofs.Exchange.Changes

/-! Backpressure. The places of a queue are taken by messages or kept for publications that have waited
    for one, and a publication only waits where all of them are. Reading frees a place, and so the stream
    that nobody can read from any more, because its token has been cancelled, frees none: until its reader
    goes, or the exchange is closed, it holds up those that wait for it. -/

namespace Relay

namespace Subscription
variable {s : Subscription} {capacity : Option Nat} {p : Nat} {m : Message} {rest : List Message}

/-- The places that are not free. -/
def occupied (s : Subscription) : Nat := s.queue.length + s.granted.length

/-- No more places are occupied than there are, and all of them if a publication waits. -/
structure Packed (capacity : Option Nat) (s : Subscription) : Prop where
  fits : ∀ n ∈ capacity, s.occupied ≤ max n 1
  full : s.waiting ≠ [] → ∃ n ∈ capacity, s.occupied = max n 1
  distinct : (s.granted ++ s.waiting).Nodup
  gone : s.dropped = true → s.waiting = []

namespace Packed

theorem reader (h : s.Packed capacity) (hw : p ∈ s.waiting) : s.dropped = false := by
  cases hd : s.dropped with
  | false => rfl
  | true =>
    rw [h.gone hd] at hw
    cases hw

/-- A place becomes free, and goes to the first that waits. -/
theorem grant (hfits : ∀ n ∈ capacity, s.occupied + 1 ≤ max n 1)
    (hfull : s.waiting ≠ [] → ∃ n ∈ capacity, s.occupied + 1 = max n 1)
    (hdistinct : (s.granted ++ s.waiting).Nodup) (hgone : s.dropped = true → s.waiting = []) :
    s.grant.Packed capacity := by
  unfold Subscription.grant
  split
  · rename_i hw
    exact ⟨fun n hn => Nat.le_of_succ_le (hfits n hn), fun hne => absurd hw hne, hdistinct, hgone⟩
  · rename_i p ps hw
    have hocc : ({ s with waiting := ps, granted := s.granted ++ [p] } : Subscription).occupied = s.occupied + 1 := by
      simp [occupied, Nat.add_assoc]
    refine ⟨fun n hn => hocc ▸ hfits n hn, fun _ => ?_, ?_, fun hd => ?_⟩
    · rw [hocc]
      exact hfull (hw ▸ List.cons_ne_nil p ps)
    · rw [hw] at hdistinct
      simpa using hdistinct
    · rw [hgone hd] at hw
      cases hw

theorem accept (h : s.Packed capacity) (hd : s.dropped = false)
    (hroom : p ∈ s.granted ∨ p ∉ s.waiting ∧ ∀ n ∈ capacity, s.occupied < max n 1) :
    (s.accept p m).Packed capacity := by
  have hdistinct : ((s.accept p m).granted ++ s.waiting).Nodup :=
    h.distinct.sublist (List.erase_sublist.append_right s.waiting)
  have hgone : (s.accept p m).dropped = true → s.waiting = [] := fun hd' => nomatch hd.symm.trans hd'
  by_cases hp : p ∈ s.granted
  · -- The message takes the place that was kept for it.
    have hocc : (s.accept p m).occupied = s.occupied := by
      have hpos := List.length_pos_of_mem hp
      simp only [occupied, Subscription.accept, List.length_append, List.length_singleton, List.length_erase_of_mem hp]
      omega
    exact ⟨fun n hn => hocc ▸ h.fits n hn, fun hw => hocc ▸ h.full hw, hdistinct, hgone⟩
  · obtain ⟨-, hfree⟩ := hroom.resolve_left hp
    have hocc : (s.accept p m).occupied = s.occupied + 1 := by
      simp only [occupied, Subscription.accept, List.length_append, List.length_singleton, List.erase_of_not_mem hp]
      omega
    refine ⟨fun n hn => hocc ▸ hfree n hn, fun hw => ?_, hdistinct, hgone⟩
    obtain ⟨n, hn, hfull⟩ := h.full hw
    exact absurd hfull (Nat.ne_of_lt (hfree n hn))

theorem await (h : s.Packed capacity) (hd : s.dropped = false) (hg : p ∉ s.granted) (hw : p ∉ s.waiting)
    (hfull : ∃ n ∈ capacity, max n 1 ≤ s.occupied) : (s.await p).Packed capacity where
  fits := h.fits
  full _ := by
    obtain ⟨n, hn, hle⟩ := hfull
    exact ⟨n, hn, Nat.le_antisymm (h.fits n hn) hle⟩
  distinct := by
    rw [show (s.await p).granted ++ (s.await p).waiting = (s.granted ++ s.waiting) ++ [p] from
      (List.append_assoc ..).symm]
    exact List.nodup_append.mpr ⟨h.distinct, by simp, fun a ha b hb => by
      rintro rfl
      rw [List.mem_singleton.mp hb] at ha
      exact (List.mem_append.mp ha).elim hg hw⟩
  gone hd' := nomatch hd.symm.trans hd'

theorem withdraw (h : s.Packed capacity) : (s.withdraw p).Packed capacity := by
  unfold Subscription.withdraw
  split
  · rename_i hp
    have hocc : ({ s with granted := s.granted.erase p } : Subscription).occupied + 1 = s.occupied := by
      have hpos := List.length_pos_of_mem hp
      simp only [occupied, List.length_erase_of_mem hp]
      omega
    exact .grant (fun n hn => hocc ▸ h.fits n hn) (fun hw => hocc ▸ h.full hw)
      (h.distinct.sublist (List.erase_sublist.append_right s.waiting)) h.gone
  · refine ⟨h.fits, fun hw => h.full fun he => hw ?_, h.distinct.sublist (List.erase_sublist.append_left s.granted),
      fun hd => ?_⟩
    · show s.waiting.erase p = []
      rw [he]
      rfl
    · show s.waiting.erase p = []
      rw [h.gone hd]
      rfl

theorem take (h : s.Packed capacity) (hq : s.queue = m :: rest) : (s.take m rest).Packed capacity := by
  have hocc : ({ s with queue := rest, taken := s.taken ++ [m] } : Subscription).occupied + 1 = s.occupied := by
    simp only [occupied, hq, List.length_cons]
    omega
  exact .grant (fun n hn => hocc ▸ h.fits n hn) (fun hw => hocc ▸ h.full hw) h.distinct h.gone

theorem drop : s.drop.Packed capacity :=
  ⟨fun _ _ => Nat.zero_le _, fun hw => absurd rfl hw, List.nodup_nil, fun _ => rfl⟩

theorem new {topic : String} {t : Token} : ({ topic, token := t } : Subscription).Packed capacity :=
  ⟨fun _ _ => Nat.zero_le _, fun hw => absurd rfl hw, List.nodup_nil, fun _ => rfl⟩

end Packed
end Subscription

namespace Exchange
variable {e : Exchange} {p i : Nat} {s : Subscription}

theorem hasRoom_iff : e.hasRoom s = true ↔ ∀ n ∈ e.capacity, s.occupied < max n 1 := by
  unfold hasRoom
  cases e.capacity with
  | none => simp
  | some n => simp [Subscription.occupied]

theorem hasRoom_eq_false_iff : e.hasRoom s = false ↔ ∃ n ∈ e.capacity, max n 1 ≤ s.occupied := by
  rw [← Bool.not_eq_true, hasRoom_iff]
  simp only [Classical.not_forall, Nat.not_lt, exists_prop]

/-- Publication `p` waits for a place in the queue of subscription `i`. -/
structure WaitsAt (e : Exchange) (p i : Nat) (s : Subscription) : Prop where
  current : ∃ q m rest ahead, e.publications[p]? = some q ∧ q.progress = .sending (m :: rest) (i :: ahead)
  opened : e.closed = false
  found : e.subscriptions[i]? = some s
  waiting : p ∈ s.waiting

theorem isBlocked_iff : e.isBlocked p = true ↔ ∃ i s, e.WaitsAt p i s := by
  constructor
  · intro h
    unfold isBlocked at h
    split at h
    · rename_i topic batch targets missed m rest i ahead hq
      rw [Bool.and_eq_true, Bool.not_eq_true'] at h
      obtain ⟨hc, hw⟩ := h
      split at hw
      · rename_i s hs
        exact ⟨i, s, ⟨_, m, rest, ahead, hq, rfl⟩, hc, hs, of_decide_eq_true hw⟩
      · cases hw
    · cases h
  · rintro ⟨i, s, ⟨q, m, rest, ahead, hq, hp⟩, hc, hs, hw⟩
    obtain ⟨topic, batch, targets, missed, progress⟩ := q
    cases hp
    unfold isBlocked
    rw [hq]
    simp only [hc, hs, hw, decide_true, Bool.not_false, Bool.and_self]

end Exchange

namespace Hub
open Exchange
variable {h : Hub} {o : Op} {capacity : Option Nat} {p i : Nat} {s s' : Subscription}

/-! ### Every queue at any time -/

theorem Changes.packed (hc : Changes h i s o s') (hs : s.Packed h.exchange.capacity) :
    s'.Packed h.exchange.capacity := by
  cases hc with
  | stays => exact hs
  | accepts _ _ _ hd hroom => exact hs.accept hd (hroom.imp id (.imp id hasRoom_iff.mp))
  | awaits _ hd hg hw hroom => exact hs.await hd hg hw (hasRoom_eq_false_iff.mp hroom)
  | withdraws _ => exact hs.withdraw
  | takes hq _ => exact hs.take hq
  | drops => exact .drop

theorem Reachable.capacity_eq (hr : Reachable capacity h) : h.exchange.capacity = capacity := by
  induction hr with
  | start => rfl
  | step o _ ih => exact (step_evolves _ o).capacity.trans ih

theorem Reachable.packed (hr : Reachable capacity h) (hs : h.exchange.subscriptions[i]? = some s) :
    s.Packed capacity := by
  induction hr generalizing i s with
  | start => cases hs
  | @step h o hr ih =>
    rcases changes hs with ⟨s₀, hs₀, hc⟩ | ⟨-, k, a, -, -, rfl⟩
    · exact hr.capacity_eq ▸ hc.packed (hr.capacity_eq.symm ▸ ih hs₀)
    · exact .new

/-! ### Waiting -/

/-- The turn of a publication that waits changes nothing. -/
theorem advance_waiting (hr : Reachable capacity h) (hw : h.exchange.WaitsAt p i s) :
    h.exchange.advance p = h.exchange := by
  have hpacked := hr.packed hw.found
  have hg : p ∉ s.granted := fun hg => (List.nodup_append.mp hpacked.distinct).2.2 p hg p hw.waiting rfl
  have hd := hpacked.reader hw.waiting
  obtain ⟨q, m, rest, ahead, hq, hp⟩ := hw.current
  unfold advance
  rw [hq]
  dsimp only
  rw [hp]
  dsimp only
  unfold send
  simp [hw.opened, hw.found, hw.waiting, hd, hg]

/-- A publication that waits at a stream that has ended waits on, whatever else happens. -/
theorem Reachable.waits_on (hr : Reachable capacity h) (hw : h.exchange.WaitsAt p i s)
    (hc : h.tokens.isCancelled s.token = true) (hdrop : o ≠ .drop i) (hclose : o ≠ .close) :
    ∃ s', (h.step o).exchange.WaitsAt p i s' ∧ (h.step o).tokens.isCancelled s'.token = true := by
  obtain ⟨q, m, rest, ahead, hq, hp⟩ := hw.current
  have hq' : (h.step o).exchange.publications[p]? = some q := by
    by_cases ho : o = .advance p
    · subst ho
      show (h.exchange.advance p).publications[p]? = some q
      rw [advance_waiting hr hw]
      exact hq
    · exact publication_kept hq ho
  obtain ⟨s', hs', hchange⟩ := changed hw.found o
  obtain ⟨s₁, hs₁, -, htoken, -⟩ := (step_evolves h o).subscription hw.found
  rw [hs'] at hs₁
  cases hs₁
  refine ⟨s', ⟨⟨q, m, rest, ahead, hq', hp⟩, (closed_kept h hclose).trans hw.opened, hs', ?_⟩,
    htoken ▸ step_cancelled o hc⟩
  cases hchange with
  | stays | accepts _ _ _ _ _ => exact hw.waiting
  | awaits _ _ _ _ _ => exact List.mem_append_left _ hw.waiting
  | withdraws hclosed => exact nomatch hw.opened.symm.trans hclosed
  | takes _ hend =>
    -- Nothing is read from the stream any more.
    unfold hasEnded at hend
    rw [hc, Bool.or_true] at hend
    cases hend
  | drops => exact absurd rfl hdrop

/-- What holds up publication `p`: the queue of subscription `i`. -/
structure HeldUp (h : Hub) (capacity : Option Nat) (p i : Nat) (s : Subscription) : Prop where
  waits : h.exchange.WaitsAt p i s
  reader : s.dropped = false
  full : ∃ n ∈ capacity, s.occupied = max n 1
  /-- Where readers go when their token is cancelled, it is a stream that has not ended. -/
  live : (∀ (j : Nat) (s' : Subscription), h.exchange.subscriptions[j]? = some s' →
    h.tokens.isCancelled s'.token = true → s'.dropped = true) → h.exchange.hasEnded h.tokens s = false
  /-- Where this one does not, nothing but its going and the end of the exchange lets the publication on. -/
  lasts : h.tokens.isCancelled s.token = true → ∀ ops : List Op, (∀ o ∈ ops, o ≠ .drop i ∧ o ≠ .close) →
    (h.run ops).exchange.isBlocked p = true
  ends : ∀ o : Op, o = .drop i ∨ o = .close → (h.step o).exchange.isBlocked p = false

/-- Backpressure. A publication that waits for a place waits at an open exchange for one subscription whose
    reader is there and whose places are all occupied. If everyone who reads goes when their token is
    cancelled, the stream of this subscription has not ended. Otherwise it may have, and then the
    publication is held up until that reader goes or the exchange is closed, and by nothing else. -/
theorem backpressure (hr : Reachable capacity h) (hb : h.exchange.isBlocked p = true) :
    ∃ i s, h.HeldUp capacity p i s := by
  obtain ⟨i, s, hw⟩ := isBlocked_iff.mp hb
  have hpacked := hr.packed hw.found
  have hd := hpacked.reader hw.waiting
  refine ⟨i, s, hw, hd, hpacked.full (List.ne_nil_of_mem hw.waiting), fun hgo => ?_, fun hc ops hops => ?_,
    fun o ho => ?_⟩
  · unfold hasEnded
    rw [hw.opened, Bool.false_or]
    exact Bool.eq_false_iff.mpr fun hc => nomatch hd.symm.trans (hgo i s hw.found hc)
  · -- Each operation leaves it waiting at this stream; others may come to wait behind it.
    clear hpacked hd hb
    induction ops generalizing h s with
    | nil => exact isBlocked_iff.mpr ⟨i, s, hw⟩
    | cons o ops ih =>
      obtain ⟨hdrop, hclose⟩ := hops o List.mem_cons_self
      obtain ⟨s', hw', hc'⟩ := hr.waits_on hw hc hdrop hclose
      exact ih (.step o hr) s' hw' hc' fun o ho => hops o (List.mem_cons_of_mem _ ho)
  · obtain ⟨q, m, rest, ahead, hq, hp⟩ := hw.current
    refine Bool.eq_false_iff.mpr fun hb' => ?_
    obtain ⟨j, s', ⟨q', m', rest', ahead', hq', hp'⟩, hopen, hs', hmem⟩ := isBlocked_iff.mp hb'
    rcases ho with rfl | rfl
    · change h.exchange.publications[p]? = some q' at hq'
      rw [hq] at hq'
      cases hq'
      rw [hp] at hp'
      cases hp'
      obtain ⟨s₀, -, rfl⟩ := of_subscription?_update hs'
      rw [if_pos rfl] at hmem
      cases hmem
    · exact nomatch hopen.symm.trans (closed_shut h.exchange)

/-- Two messages for a queue of one place, and nobody reads. -/
def crowded : List Op :=
  [.token, .subscribe 0 "t", .register 0, .publish "t" [{ id := "a", payload := [] }, { id := "b", payload := [] }]] ++
    List.replicate 4 (.advance 0)

theorem backpressure_of_two : ((start (some 1)).run crowded).exchange.isBlocked 0 = true ∧
    ∃ i s, ((start (some 1)).run crowded).HeldUp (some 1) 0 i s :=
  ⟨rfl, backpressure (Reachable.start.run crowded) rfl⟩

/-- The token of the only stream is cancelled while a publication waits, and it goes on waiting. -/
theorem held_up_by_ended : ¬∀ (capacity : Option Nat) (h : Hub) (p : Nat), Reachable capacity h →
    h.exchange.isBlocked p = true →
    ∃ i s, h.exchange.WaitsAt p i s ∧ h.tokens.isCancelled s.token = false := by
  intro hlive
  have hr : Reachable (some 1) ((start (some 1)).run crowded) := Reachable.start.run crowded
  have hb : (((start (some 1)).run crowded).step (.cancel 0)).exchange.isBlocked 0 = true := rfl
  have htargets : (((start (some 1)).run crowded).exchange.publications[0]?).map Publication.progress =
      some (.sending [{ id := "b", topic := "t", payload := [] }] [0]) := rfl
  have htokens : (((start (some 1)).run crowded).exchange.subscriptions[0]?).map Subscription.token = some 0 := rfl
  have hcancelled : (((start (some 1)).run crowded).tokens.cancel 0).isCancelled 0 = true := by
    rw [Tokens.isCancelled_cancel, Tokens.below]
    rfl
  generalize (start (some 1)).run crowded = h at hr hb htargets htokens hcancelled
  obtain ⟨i, s, hw, hc⟩ := hlive (some 1) (h.step (.cancel 0)) 0 (.step (.cancel 0) hr) hb
  obtain ⟨q, m, rest, ahead, hq, hp⟩ := hw.current
  rw [show h.exchange.publications[0]? = some q from hq, Option.map_some, hp] at htargets
  cases htargets
  rw [show h.exchange.subscriptions[0]? = some s from hw.found, Option.map_some] at htokens
  rw [Option.some.inj htokens] at hc
  cases hcancelled.symm.trans hc

end Hub
end Relay
