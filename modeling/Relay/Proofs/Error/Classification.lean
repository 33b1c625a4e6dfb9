import Relay.Proofs.Error.Wrapping

/-! The classification of an error. Its kind, its code and whether the work is worth trying again are each found
    by a walk of its own; all three are read off one list, that of the nodes in depth-first order. So a further
    cause changes little: it never takes away that the work is worth trying again, and at the root it comes too
    late for a kind or a code that is known. -/

namespace Relay
namespace Error
variable {e cause : Error} {label : Label} {causes : List Error}

/-! ### The nodes of a tree -/

theorem linksOf_eq_flatMap (es : List Error) : linksOf es = es.flatMap links := by
  induction es with
  | nil => rfl
  | cons e es ih => rw [linksOf, ih, List.flatMap_cons]

/-- The root comes first, and then the nodes of one child after the other. -/
theorem links_eq_cons (e : Error) : e.links = e :: e.children.flatMap links := by
  cases e with
  | custom label causes => rw [links, linksOf_eq_flatMap, children]
  | wrapper _ source | broker _ source => simp [links, children, source?]
  | lifecycle e => cases e <;> rfl
  | publish e => cases e <;> rfl
  | plain _ | transport _ | registration _ | codec _ | traceParent _ | configuration _ => rfl

namespace Frame

/-- What stands in the open place is a node of the tree. -/
theorem mem_links_fill (f : Frame) (e : Error) : e ∈ (f.fill e).links := by
  induction f with
  | here => rw [fill, links_eq_cons]; exact List.mem_cons_self
  | wrapper _ _ ih | broker _ _ ih => exact List.mem_cons_of_mem _ ih
  | custom label before within after ih =>
    refine List.mem_cons_of_mem _ ?_
    rw [linksOf_eq_flatMap, List.flatMap_append]
    exact List.mem_append_right _ (List.mem_append_left _ ih)

end Frame

mutual

/-- A custom error in a tree stands in a place of it. -/
theorem exists_fill_of_mem_links : (e : Error) → custom label causes ∈ e.links →
    ∃ f : Frame, e = f.fill (custom label causes)
  | wrapper message source, h => by
    rcases List.mem_cons.mp h with he | h
    · cases he
    · obtain ⟨f, rfl⟩ := exists_fill_of_mem_links source h
      exact ⟨.wrapper message f, rfl⟩
  | broker task source, h => by
    rcases List.mem_cons.mp h with he | h
    · cases he
    · obtain ⟨f, rfl⟩ := exists_fill_of_mem_links source h
      exact ⟨.broker task f, rfl⟩
  | custom label' causes', h => by
    rcases List.mem_cons.mp h with he | h
    · exact ⟨.here, he.symm⟩
    · obtain ⟨before, f, after, rfl⟩ := exists_fill_of_mem_linksOf causes' h
      exact ⟨.custom label' before f after, rfl⟩
  | lifecycle (.subscribe ..), h | publish (.codec _), h | codec _, h => by simp [links] at h
  | plain _, h | transport _, h | registration _, h | lifecycle .alreadyRunning, h | lifecycle .notStarted, h
  | lifecycle (.workers _), h | publish (.transport _), h | traceParent _, h | configuration _, h => by
    simp [links] at h

theorem exists_fill_of_mem_linksOf : (es : List Error) → custom label causes ∈ linksOf es →
    ∃ before f after, es = before ++ Frame.fill f (custom label causes) :: after
  | [], h => nomatch h
  | e :: es, h => by
    rcases List.mem_append.mp h with h | h
    · obtain ⟨f, rfl⟩ := exists_fill_of_mem_links e h
      exact ⟨[], f, es, rfl⟩
    · obtain ⟨before, f, after, rfl⟩ := exists_fill_of_mem_linksOf es h
      exact ⟨e :: before, f, after, rfl⟩

end

/-! ### One more cause -/

theorem taxa_attach : ((custom label causes).attach cause).taxa = (custom label causes).taxa ++ cause.taxa := by
  simp [attach, taxaOf_append]

theorem Frame.retryable_fill (f : Frame) (e : Error) : (f.fill e).retryable =
    (f.ahead.any (·.retryable) || e.retryable || f.behind.any (·.retryable)) := by
  simp only [retryable_eq, taxa_fill, List.any_append]

theorem retryable_attach (h : e.retryable = true) : (e.attach cause).retryable = true := by
  cases e with
  | custom label causes => rw [retryable_eq, taxa_attach, List.any_append, ← retryable_eq, h, Bool.true_or]
  | plain _ | wrapper _ _ | transport _ | registration _ | lifecycle _ | broker _ _ | publish _ | codec _
  | traceParent _ | configuration _ => exact h

theorem kind_attach (h : e.kind ≠ .unknown) : (e.attach cause).kind = e.kind := by
  cases e with
  | custom label causes =>
    rw [kind_eq] at h
    rw [kind_eq, kind_eq, taxa_attach, List.map_append, firstKnown_append, if_neg h]
  | plain _ | wrapper _ _ | transport _ | registration _ | lifecycle _ | broker _ _ | publish _ | codec _
  | traceParent _ | configuration _ => rfl

theorem code_attach (h : e.code ≠ unknownCode) : (e.attach cause).code = e.code := by
  cases e with
  | custom label causes =>
    rw [code_eq] at h
    rw [code_eq, code_eq, taxa_attach, List.map_append, firstKnown_append, if_neg h]
  | plain _ | wrapper _ _ | transport _ | registration _ | lifecycle _ | broker _ _ | publish _ | codec _
  | traceParent _ | configuration _ => rfl

/-! ### What an error is classified by -/

/-- How an error is classified: by its nodes, in depth-first order, as far as they are of a type that says what it
    is. -/
structure Classified (e : Error) : Prop where
  listed : e.links = e :: e.children.flatMap links
  kind : e.kind = firstKnown .unknown ((e.links.filterMap taxon?).map (·.kind))
  code : e.code = firstKnown unknownCode ((e.links.filterMap taxon?).map (·.code))
  retryable : e.retryable = true ↔ ∃ l ∈ e.links, ∃ t, l.taxon? = some t ∧ t.retryable = true
  /-- The custom errors of the tree are those to which a cause can be attached at some place of it. -/
  places : ∀ label causes, custom label causes ∈ e.links ↔ ∃ f : Frame, e = f.fill (custom label causes)
  attached : ∀ (f : Frame) (label : Label) (causes : List Error) (cause : Error), e = f.fill (custom label causes) →
    e.retryable = true → (f.fill ((custom label causes).attach cause)).retryable = true
  attachedKind : ∀ cause, e.kind ≠ .unknown → (e.attach cause).kind = e.kind
  attachedCode : ∀ cause, e.code ≠ unknownCode → (e.attach cause).code = e.code

/-- Classification. Whatever an error is made of, its kind and its code are the first known ones among the nodes
    that say what they are, in the order of a depth-first walk, and it is worth another attempt just if one of these
    nodes says so. A further cause of any custom error in it leaves it worth another attempt, and a further cause of
    its root leaves a known kind and a known code as they are. -/
theorem classification (e : Error) : e.Classified where
  listed := links_eq_cons e
  kind := kind_eq e
  code := code_eq e
  retryable := by
    rw [retryable_eq, List.any_eq_true]
    simp only [taxa, List.mem_filterMap]
    constructor
    · rintro ⟨t, ⟨l, hl, ht⟩, hr⟩
      exact ⟨l, hl, t, ht, hr⟩
    · rintro ⟨l, hl, t, ht, hr⟩
      exact ⟨t, ⟨l, hl, ht⟩, hr⟩
  places label causes := by
    refine ⟨exists_fill_of_mem_links e, ?_⟩
    rintro ⟨f, rfl⟩
    exact f.mem_links_fill _
  attached := by
    rintro f label causes cause rfl h
    rw [Frame.retryable_fill] at h ⊢
    simp only [Bool.or_eq_true] at h ⊢
    exact h.imp (.imp id retryable_attach) id
  attachedKind _ := kind_attach
  attachedCode _ := code_attach

/-- The first cause says nothing, and so the kind is that of what the second one came from. -/
example : (custom { message := "order" } [plain "disk", wrapper "stock" notFound]).kind = .notFound := rfl

end Error
end Relay
