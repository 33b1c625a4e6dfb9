import Mathlib.Data.List.Sort
import Relay.Proofs.Exchange.Prefixes

/-! The streams of a topic, and the list that is kept of them. A stream is there from its subscription until its
    reader goes, and nothing but these two changes which streams there are. The lists are behind: a stream whose
    reader has gone stays listed until a publication has missed it. Of the others an open exchange lists each
    once, in the order in which they were opened, and it keeps no list that is empty. -/

namespace Relay

/-! ### Lists of subscriptions -/

namespace Registry
variable {r : Registry} {topic t : String} {l : List Nat} {s : Nat} {keep : Nat → Bool}

/-- Every topic has one list, with something in it, in the order of subscription. -/
structure Neat (r : Registry) : Prop where
  topics : (r.map Prod.fst).Nodup
  nonempty : ∀ entry ∈ r, entry.2 ≠ []
  ordered : ∀ entry ∈ r, entry.2.Pairwise (· < ·)

theorem neat_nil : Neat [] := ⟨List.nodup_nil, by simp, by simp⟩

theorem mem_map_fst_enlist (h : t ∈ (r.enlist topic s).map Prod.fst) : t = topic ∨ t ∈ r.map Prod.fst := by
  obtain ⟨entry, hm, rfl⟩ := List.mem_map.mp h
  rcases mem_enlist hm with hm | ⟨l, -, rfl⟩
  · exact .inr (List.mem_map_of_mem hm)
  · exact .inl rfl

theorem mem_map_fst_prune (h : t ∈ (r.prune topic keep).map Prod.fst) : t ∈ r.map Prod.fst := by
  obtain ⟨entry, hm, rfl⟩ := List.mem_map.mp h
  obtain ⟨l, hl, -⟩ := mem_prune hm
  exact List.mem_map.mpr ⟨_, hl, rfl⟩

theorem nodup_enlist (h : (r.map Prod.fst).Nodup) : ((r.enlist topic s).map Prod.fst).Nodup := by
  induction r with
  | nil => simp [enlist]
  | cons head rest ih =>
    obtain ⟨t', l⟩ := head
    obtain ⟨hnotin, hrest⟩ := List.nodup_cons.mp h
    unfold enlist
    split
    · exact h
    · rename_i hne
      refine List.nodup_cons.mpr ⟨fun hm => ?_, ih hrest⟩
      rcases mem_map_fst_enlist hm with rfl | hm
      · exact hne rfl
      · exact hnotin hm

theorem nodup_prune (h : (r.map Prod.fst).Nodup) : ((r.prune topic keep).map Prod.fst).Nodup := by
  induction r with
  | nil => simp [prune]
  | cons head rest ih =>
    obtain ⟨t', l⟩ := head
    obtain ⟨hnotin, hrest⟩ := List.nodup_cons.mp h
    unfold prune
    split
    · split
      · exact hrest
      · exact h
    · exact List.nodup_cons.mpr ⟨fun hm => hnotin (mem_map_fst_prune hm), ih hrest⟩

theorem nonempty_prune (h : ∀ entry ∈ r, entry.2 ≠ []) : ∀ entry ∈ r.prune topic keep, entry.2 ≠ [] := by
  induction r with
  | nil => simp [prune]
  | cons head rest ih =>
    obtain ⟨hhead, hrest⟩ := List.forall_mem_cons.mp h
    unfold prune
    split
    · split
      · exact hrest
      · rename_i hne
        exact List.forall_mem_cons.mpr ⟨hne, hrest⟩
    · exact List.forall_mem_cons.mpr ⟨hhead, ih hrest⟩

/-- The number of a new subscription is greater than those that are listed. -/
theorem Neat.enlist (h : r.Neat) (hs : ∀ entry ∈ r, ∀ i ∈ entry.2, i < s) : (r.enlist topic s).Neat where
  topics := nodup_enlist h.topics
  nonempty entry hm := by
    rcases mem_enlist hm with hm | ⟨l, -, rfl⟩
    · exact h.nonempty entry hm
    · simp
  ordered entry hm := by
    rcases mem_enlist hm with hm | ⟨l, rfl | hl, rfl⟩
    · exact h.ordered entry hm
    · simp
    · refine List.pairwise_append.mpr ⟨h.ordered _ hl, List.pairwise_singleton _ _, ?_⟩
      intro i hi j hj
      rw [List.mem_singleton.mp hj]
      exact hs _ hl i hi

theorem Neat.prune (h : r.Neat) : (r.prune topic keep).Neat where
  topics := nodup_prune h.topics
  nonempty := nonempty_prune h.nonempty
  ordered entry hm := by
    obtain ⟨l, hl, hsub⟩ := mem_prune hm
    exact (h.ordered _ hl).sublist hsub

theorem lookup_eq_none_of_not_mem (h : t ∉ r.map Prod.fst) : r.lookup t = none := by
  rw [List.lookup_eq_none_iff]
  intro entry hm
  have hne : t ≠ entry.1 := by
    rintro rfl
    exact h (List.mem_map_of_mem hm)
  simp [hne]

/-- Pruning makes one list shorter, and where nothing is left of it there is no list. -/
theorem getD_lookup_prune (h : (r.map Prod.fst).Nodup) (topic : String) (keep : Nat → Bool) (t : String) :
    ((r.prune topic keep).lookup t).getD [] =
      if t = topic then ((r.lookup t).getD []).filter keep else (r.lookup t).getD [] := by
  induction r with
  | nil => simp [prune]
  | cons head rest ih =>
    obtain ⟨t', l⟩ := head
    obtain ⟨hnotin, hrest⟩ := List.nodup_cons.mp h
    have hgone : rest.lookup t' = none := lookup_eq_none_of_not_mem hnotin
    unfold prune
    by_cases htopic : t' = topic
    · subst htopic
      rw [if_pos rfl]
      by_cases ht : t = t'
      · subst ht
        split
        · rename_i hnil
          simp [hgone, hnil]
        · simp
      · split <;> simp [List.lookup_cons, beq_eq_false_iff_ne.mpr ht, ht]
    · rw [if_neg htopic, List.lookup_cons, List.lookup_cons]
      by_cases ht : t = t'
      · subst ht
        simp [htopic]
      · simp [beq_eq_false_iff_ne.mpr ht, ih hrest]

end Registry

/-! ### The streams of a topic -/

namespace Exchange
variable {e e' : Exchange} {topic : String} {i : Nat} {s : Subscription}

/-- The subscriptions that are listed under a topic. -/
def listed (e : Exchange) (topic : String) : List Nat := (e.registry.lookup topic).getD []

/-- Whether subscription `i` is one on this topic whose reader is there. -/
def isOpenOn (e : Exchange) (topic : String) (i : Nat) : Bool :=
  (e.subscriptions[i]?).any fun s => s.topic == topic && !s.dropped

/-- The streams of a topic that have been opened and not been dropped, in the order in which they were opened. -/
def streams (e : Exchange) (topic : String) : List Nat :=
  (List.range e.subscriptions.length).filter (e.isOpenOn topic)

theorem isOpenOn_eq_true_iff : e.isOpenOn topic i = true ↔
    ∃ s, e.subscriptions[i]? = some s ∧ s.topic = topic ∧ s.dropped = false := by
  simp [isOpenOn, Option.any_eq_true]

theorem isDropped_eq_false_iff : e.isDropped i = false ↔ ∃ s, e.subscriptions[i]? = some s ∧ s.dropped = false := by
  unfold isDropped
  split
  · rename_i s hs
    simp [hs]
  · rename_i hs
    simp [hs]

theorem mem_streams : i ∈ e.streams topic ↔ e.isOpenOn topic i = true := by
  simp only [streams, List.mem_filter, List.mem_range, and_iff_right_iff_imp]
  intro h
  obtain ⟨s, hs, -⟩ := isOpenOn_eq_true_iff.mp h
  exact (List.getElem?_eq_some_iff.mp hs).1

theorem pairwise_streams : (e.streams topic).Pairwise (· < ·) :=
  List.Pairwise.filter _ List.pairwise_lt_range

theorem count_eq (e : Exchange) (topic : String) :
    e.count topic = ((e.listed topic).filter fun i => !e.isDropped i).length := rfl

theorem listed_of_lookup {l : List Nat} (h : e.registry.lookup topic = some l) : e.listed topic = l := by
  simp [listed, h]

theorem mem_registry_of_mem_listed (h : i ∈ e.listed topic) : (topic, e.listed topic) ∈ e.registry := by
  unfold listed at h ⊢
  cases hl : e.registry.lookup topic with
  | none => simp [hl] at h
  | some l => exact Registry.mem_of_lookup hl

theorem Sound.isOn_of_mem_listed (h : e.Sound) (hi : i ∈ e.listed topic) : e.IsOn i topic :=
  h.listed _ (mem_registry_of_mem_listed hi) i hi

theorem pairwise_listed (h : e.registry.Neat) : (e.listed topic).Pairwise (· < ·) := by
  unfold listed
  cases hl : e.registry.lookup topic with
  | none => simp
  | some l => exact h.ordered _ (Registry.mem_of_lookup hl)

/-- Pruning takes something out of one list. -/
theorem listed_prune (h : e.registry.Neat) (t : String) (keep : Nat → Bool) (topic : String) :
    ({ e with registry := e.registry.prune t keep } : Exchange).listed topic =
      if topic = t then (e.listed topic).filter keep else e.listed topic :=
  Registry.getD_lookup_prune h.topics t keep topic

/-- Topics list subscriptions of their own, each once and in order, and only topics that have some are there. -/
structure WellListed (e : Exchange) : Prop where
  sound : e.Sound
  neat : e.registry.Neat

/-- The streams among those that are listed under a topic are those from where the lists begin on. -/
theorem WellListed.filter_listed {n : Nat} (hw : e.WellListed) (hl : e.ListsFrom n) (topic : String) :
    ((e.listed topic).filter fun i => !e.isDropped i) = (e.streams topic).filter fun i => n ≤ i := by
  refine List.Pairwise.eq_of_mem_iff (List.Pairwise.filter _ (pairwise_listed hw.neat))
    (List.Pairwise.filter _ pairwise_streams) ?_
  intro i
  rw [List.mem_filter, List.mem_filter, mem_streams, isOpenOn_eq_true_iff, Bool.not_eq_true', isDropped_eq_false_iff,
    decide_eq_true_iff]
  constructor
  · rintro ⟨hi, s, hs, hd⟩
    obtain ⟨s', hs', ht⟩ := hw.sound.isOn_of_mem_listed hi
    rw [hs] at hs'
    cases hs'
    exact ⟨⟨s, hs, ht, hd⟩, hl.since _ (mem_registry_of_mem_listed hi) i hi⟩
  · rintro ⟨⟨s, hs, rfl, hd⟩, hn⟩
    obtain ⟨l, hlookup, hi⟩ := hl.present hn hs hd
    rw [listed_of_lookup hlookup]
    exact ⟨hi, s, hs, hd⟩

/-- Those that an open exchange lists are all that are there. -/
theorem WellListed.filter_listed_of_open (hw : e.WellListed) (hl : e.Listed) (hopen : e.closed = false)
    (topic : String) : ((e.listed topic).filter fun i => !e.isDropped i) = e.streams topic :=
  (hw.filter_listed (hl.everyone hopen) topic).trans (by simp)

end Exchange

namespace Hub
open Exchange
variable {h : Hub} {o : Op} {capacity : Option Nat} {i p : Nat} {s s' : Subscription} {topic : String}

/-! ### What the operations do to the lists -/

theorem neat_step (hw : h.exchange.WellListed) (o : Op) : (h.step o).exchange.registry.Neat := by
  cases lists h o with
  | stays hr =>
    rw [hr]
    exact hw.neat
  | enlists hr =>
    rw [hr]
    refine hw.neat.enlist ?_
    intro entry hm i hi
    obtain ⟨s, hs, -⟩ := hw.sound.listed entry hm i hi
    exact (List.getElem?_eq_some_iff.mp hs).1
  | prunes hr =>
    rw [hr]
    exact hw.neat.prune
  | clears hr =>
    rw [hr]
    exact Registry.neat_nil

theorem wellListed_step (hw : h.exchange.WellListed) (o : Op) : (h.step o).exchange.WellListed :=
  ⟨hw.sound.step o, neat_step hw o⟩

theorem wellListed_run (hw : h.exchange.WellListed) (ops : List Op) : (h.run ops).exchange.WellListed := by
  induction ops generalizing h with
  | nil => exact hw
  | cons o ops ih => exact ih (wellListed_step hw o)

theorem Reachable.wellListed (hr : Reachable capacity h) : h.exchange.WellListed := by
  induction hr with
  | start => exact ⟨.new capacity, Registry.neat_nil⟩
  | step o _ ih => exact wellListed_step ih o

/-! ### What the operations do to the streams -/

theorem Changes.dropped (hc : Changes h i s o s') (ho : o ≠ .drop i) : s'.dropped = s.dropped := by
  cases hc with
  | stays | accepts _ _ _ _ _ | awaits _ _ _ _ _ => rfl
  | withdraws _ => exact Subscription.Fed.withdraw.dropped
  | takes _ _ => simp [Subscription.take]
  | drops => exact absurd rfl ho

theorem length_subscriptions (ho : ∀ k, o ≠ .register k) :
    (h.step o).exchange.subscriptions.length = h.exchange.subscriptions.length := by
  refine Nat.le_antisymm (Nat.le_of_not_lt ?_) (Nat.le_of_not_lt ?_)
  · intro hlt
    rcases changes (List.getElem?_eq_getElem hlt) with ⟨s, hs, -⟩ | ⟨-, k, a, rfl, -⟩
    · exact Nat.lt_irrefl _ (List.getElem?_eq_some_iff.mp hs).1
    · exact ho k rfl
  · intro hlt
    obtain ⟨s', hs', -⟩ := changed (List.getElem?_eq_getElem hlt) o
    exact Nat.lt_irrefl _ (List.getElem?_eq_some_iff.mp hs').1

/-- Streams are opened by `register` and go by `drop`. All else leaves them as they are: what is published, read
    or cancelled, and what a publication does in its turn. -/
theorem streams_step (ho : ∀ k, o ≠ .register k) (topic : String) :
    (h.step o).exchange.streams topic = (h.exchange.streams topic).filter fun i => o ≠ .drop i := by
  unfold streams
  rw [length_subscriptions ho, List.filter_filter]
  refine List.filter_congr ?_
  intro i hi
  have hs := List.getElem?_eq_getElem (List.mem_range.mp hi)
  obtain ⟨s', hs', hchange⟩ := changed hs o
  obtain ⟨s₁, hs₁, htopic, -⟩ := (step_evolves h o).subscription hs
  rw [hs'] at hs₁
  cases hs₁
  rw [isOpenOn, isOpenOn, hs, hs', Option.any_some, Option.any_some, htopic]
  by_cases hdrop : o = .drop i
  · subst hdrop
    have hgone : s'.dropped = true := by
      have hdropped := subscription?_update (s := i) (f := Subscription.drop) hs
      rw [if_pos rfl] at hdropped
      cases hs'.symm.trans hdropped
      rfl
    simp [hgone]
  · rw [hchange.dropped hdrop]
    simp [hdrop]

theorem streams_register {k : Nat} {a : Admission} (ha : h.exchange.admitted[k]? = some a)
    (hsize : h.exchange.isOversized = false) (topic : String) : (h.step (.register k)).exchange.streams topic =
      h.exchange.streams topic ++ if a.topic = topic then [h.exchange.subscriptions.length] else [] := by
  have hstep : (h.step (.register k)).exchange.subscriptions =
      h.exchange.subscriptions ++ [{ topic := a.topic, token := a.token }] :=
    congrArg Exchange.subscriptions (register_of_some ha hsize)
  unfold streams
  rw [hstep, List.length_append, List.length_singleton, List.range_succ, List.filter_append]
  congr 1
  · refine List.filter_congr ?_
    intro i hi
    rw [isOpenOn, isOpenOn, hstep, List.getElem?_append_left (List.mem_range.mp hi)]
  · have hnew : (h.step (.register k)).exchange.subscriptions[h.exchange.subscriptions.length]? =
        some { topic := a.topic, token := a.token } := hstep ▸ List.getElem?_concat_length
    rw [List.filter_singleton, isOpenOn, hnew]
    simp

end Hub
end Relay
