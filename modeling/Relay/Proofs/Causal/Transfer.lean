import Relay.Proofs.Causal.Fields

/-! The causal fields of two contexts and of metadata between them. `inject` and `extract` are told apart by key:
    every key belongs to at most one field or member, so what is read at a member is the last of what was written
    there, the other entries are left alone, and the order in which the entries come makes no difference
    (`transfer`). -/

namespace Relay

namespace Dict

theorem insert_comm (d : Dict) {a b : String} (h : a ≠ b) (v w : String) :
    (d.insert a v).insert b w = (d.insert b w).insert a v := by
  refine eq_of_get?_eq fun k => ?_
  simp only [get?_insert]
  by_cases ha : k = a
  · simp [ha, h]
  · simp [ha]

end Dict

/-- An entry is determined by its key. -/
theorem Entries.eq_of_key_eq {l : List (String × String)} (hl : Sorted l) {x y : String × String} (hx : x ∈ l)
    (hy : y ∈ l) (h : x.1 = y.1) : x = y := by
  induction l with
  | nil => cases hx
  | cons e l ih =>
    obtain ⟨hlt, hl⟩ := List.pairwise_cons.mp hl
    rcases List.mem_cons.mp hx with hxe | hxl <;> rcases List.mem_cons.mp hy with hye | hyl
    · rw [hxe, hye]
    · exact absurd (hlt y hyl) (hxe ▸ h ▸ Std.lt_irrefl)
    · exact absurd (hlt x hxl) (hye ▸ h ▸ Std.lt_irrefl)
    · exact ih hl hxl hyl

/-! ### The order of the entries -/

/-- What is extracted when the entries of the metadata come in this order. -/
def extractInOrder (c : Context) (m : Dict) (order : List (String × String)) : Context :=
  { extract c m with baggage := order.foldl addMember c.baggage }

theorem extractInOrder_toList (c : Context) (m : Dict) : extractInOrder c m m.toList = extract c m := rfl

theorem addMember_comm (b : Dict) {x y : String × String} (h : x.1 = y.1 → x = y) :
    addMember (addMember b x) y = addMember (addMember b y) x := by
  unfold addMember
  cases hx : baggageMember? x.1 with
  | none => rfl
  | some member =>
    cases hy : baggageMember? y.1 with
    | none => rfl
    | some other =>
      by_cases heq : member = other
      · obtain ⟨-, hkx⟩ := baggageMember?_eq_some_iff.mp hx
        obtain ⟨-, hky⟩ := baggageMember?_eq_some_iff.mp hy
        rw [h (by rw [hkx, hky, heq]), heq]
      · exact b.insert_comm heq _ _

/-- Metadata has one entry for each key, so any order of its entries gives the same context. -/
theorem extractInOrder_eq {c : Context} {m : Dict} {order : List (String × String)} (h : order.Perm m.toList) :
    extractInOrder c m order = extract c m := by
  have hfold : order.foldl addMember c.baggage = m.toList.foldl addMember c.baggage :=
    h.foldl_eq' (fun x hx y hy b => addMember_comm b fun hkey =>
      Entries.eq_of_key_eq m.sorted (h.mem_iff.mp hx) (h.mem_iff.mp hy) hkey) _
  rw [extractInOrder, hfold]
  rfl

/-! ### There and back -/

/-- What comes of metadata when a context is written into it. -/
structure Injected (c : Context) (m m' : Dict) : Prop where
  correlation : m'.get? correlationKey = c.correlationId.or (m.get? correlationKey)
  trace : m'.get? traceKey = (c.trace.map (·.render)).or (m.get? traceKey)
  baggage : ∀ member, m'.get? (baggageKey member) = (c.baggage.get? member).or (m.get? (baggageKey member))
  /-- Only the keys of what the context has are written. -/
  changed : ∀ key, m'.get? key ≠ m.get? key → (key = correlationKey ∧ c.correlationId ≠ none) ∨
    (key = traceKey ∧ c.trace ≠ none) ∨ ∃ member, key = baggageKey member ∧ c.baggage.get? member ≠ none

/-- What is restored over `b` from metadata into which `c` was written. The member of baggage without a name is
    that of `b`, for no entry is read as one. -/
structure Restored (b c : Context) (m : Dict) (d : Context) : Prop where
  correlation : d.correlationId = c.correlationId.or ((m.get? correlationKey).or b.correlationId)
  trace : d.trace = c.trace.or (((m.get? traceKey).bind fun s => (TraceParent.parse s).toOption).or b.trace)
  baggage : ∀ member, d.baggage.get? member =
    if member = "" then b.baggage.get? "" else
      (c.baggage.get? member).or ((m.get? (baggageKey member)).or (b.baggage.get? member))
  token : d.token = b.token

theorem get?_inject_of_ne (c : Context) (m : Dict) {key : String} (hid : key ≠ correlationKey) (htrace : key ≠ traceKey)
    (hbaggage : ∀ member, key ≠ baggageKey member) : (inject c m).get? key = m.get? key := by
  unfold inject
  dsimp only
  rw [get?_writeBaggage_of_ne _ hbaggage]
  cases c.trace <;> cases c.correlationId <;> simp [Dict.get?_insert, hid, htrace]

/-- Two dictionaries agree when they do at the keys of the causal fields and at all others. -/
theorem eq_of_get?_fields {m m' : Dict} (hid : m.get? correlationKey = m'.get? correlationKey)
    (htrace : m.get? traceKey = m'.get? traceKey)
    (hbaggage : ∀ member, m.get? (baggageKey member) = m'.get? (baggageKey member))
    (hother : ∀ key, key ≠ correlationKey → key ≠ traceKey → (∀ member, key ≠ baggageKey member) →
      m.get? key = m'.get? key) : m = m' := by
  refine Dict.eq_of_get?_eq fun key => ?_
  by_cases h : key = correlationKey
  · exact h ▸ hid
  by_cases h' : key = traceKey
  · exact h' ▸ htrace
  by_cases h'' : ∃ member, key = baggageKey member
  · obtain ⟨member, rfl⟩ := h''
    exact hbaggage member
  · exact hother key h h' fun member hm => h'' ⟨member, hm⟩

theorem injected_inject (c : Context) (m : Dict) : Injected c m (inject c m) where
  correlation := get?_inject_correlation c m
  trace := get?_inject_trace c m
  baggage := get?_inject_baggage c m
  changed key hne := by
    by_cases h : key = correlationKey
    · refine .inl ⟨h, fun hnone => hne ?_⟩
      rw [h, get?_inject_correlation, hnone, Option.none_or]
    by_cases h' : key = traceKey
    · refine .inr (.inl ⟨h', fun hnone => hne ?_⟩)
      rw [h', get?_inject_trace, hnone, Option.map_none, Option.none_or]
    by_cases h'' : ∃ member, key = baggageKey member
    · obtain ⟨member, rfl⟩ := h''
      refine .inr (.inr ⟨member, rfl, fun hnone => hne ?_⟩)
      rw [get?_inject_baggage, hnone, Option.none_or]
    · exact absurd (get?_inject_of_ne c m h h' fun member hm => h'' ⟨member, hm⟩) hne

theorem or_or_self {α : Type} (a b : Option α) : a.or (a.or b) = a.or b := by
  rw [← Option.or_assoc, Option.or_self]

theorem inject_inject (c : Context) (m : Dict) : inject c (inject c m) = inject c m := by
  refine eq_of_get?_fields ?_ ?_ (fun member => ?_) fun key hid htrace hbaggage => ?_
  · rw [get?_inject_correlation, get?_inject_correlation, or_or_self]
  · rw [get?_inject_trace, get?_inject_trace, or_or_self]
  · rw [get?_inject_baggage, get?_inject_baggage, or_or_self]
  · exact get?_inject_of_ne c _ hid htrace hbaggage

theorem extract_extract (c : Context) (m : Dict) : extract (extract c m) m = extract c m := by
  have hbaggage : (extract (extract c m) m).baggage = (extract c m).baggage := by
    refine Dict.eq_of_get?_eq fun member => ?_
    simp only [get?_extract_baggage]
    by_cases hm : member = ""
    · simp [hm]
    · rw [if_neg hm, if_neg hm, or_or_self]
  have hfields : extract (extract c m) m = { extract c m with baggage := (extract (extract c m) m).baggage } := by
    simp only [extract, or_or_self]
  rw [hfields, hbaggage]

theorem restored_extract (b c : Context) (m : Dict) : Restored b c m (extract b (inject c m)) where
  correlation := by
    rw [extract, get?_inject_correlation, Option.or_assoc]
  trace := by
    rw [extract, get?_inject_trace]
    dsimp only
    cases c.trace with
    | none => rw [Option.map_none, Option.none_or, Option.none_or]
    | some p => simp [TraceParent.parse_render, Except.toOption]
  baggage member := by
    rw [get?_extract_baggage, get?_inject_baggage, Option.or_assoc]
  token := rfl

/-- Writing a context into metadata changes these at its own keys only, and reading them over another context puts
    the fields of the first before those that the metadata had, and these before those of the other, in whatever
    order the entries come. Doing either twice is doing it once. -/
theorem transfer (b c : Context) (m : Dict) : Injected c m (inject c m) ∧ inject c (inject c m) = inject c m ∧
    (∀ order : List (String × String), order.Perm (inject c m).toList →
      Restored b c m (extractInOrder b (inject c m) order)) ∧
    ∀ order order' : List (String × String), order.Perm m.toList → order'.Perm m.toList →
      extractInOrder (extractInOrder b m order) m order' = extractInOrder b m order := by
  refine ⟨injected_inject c m, inject_inject c m, fun order h => ?_, fun order order' h h' => ?_⟩
  · rw [extractInOrder_eq h]
    exact restored_extract b c m
  · rw [extractInOrder_eq h, extractInOrder_eq h', extract_extract]

/-- Three sources of baggage, with an entry and a member without a name, a trace parent that cannot be read, and
    entries that come in the opposite order. -/
theorem transfer_of_three :
    let b : Context :=
      { token := 0, correlationId := some "b", baggage := Dict.ofList [("", "b"), ("x", "b"), ("y", "b")] }
    let c : Context := { token := 1, baggage := Dict.ofList [("", "c"), ("z", "c")] }
    let m := Dict.ofList [(traceKey, "none"), (baggageKey "y", "m"), (baggageKey "z", "m")]
    let d := extractInOrder b (inject c m) (inject c m).toList.reverse
    d.token = 0 ∧ d.correlationId = some "b" ∧ d.trace = none ∧
      ["", "x", "y", "z"].map d.baggage.get? = [some "b", some "b", some "m", some "c"] := by
  intro b c m d
  have h : Restored b c m d := (transfer b c m).2.2.1 _ (List.reverse_perm _)
  refine ⟨h.token, h.correlation.trans (by decide +kernel), h.trace.trans (by decide +kernel), ?_⟩
  simp only [List.map_cons, List.map_nil, h.baggage]
  decide +kernel

end Relay
