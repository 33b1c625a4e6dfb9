import Relay.Proofs.Call.Moves

/-! Where a call stands in its pipeline. The stages that have been entered and those that are still
    ahead are together the whole pipeline, as long as none of them is a user's own, and the context never
    leaves its token (`Call.Moves.stands`). -/

namespace Relay

theorem Context.startSpan_token (c : Context) (ids : Supply) : (c.startSpan ids).1.token = c.token := by
  unfold startSpan
  split <;> rfl

theorem World.startSpan_token (w : World) (task : Nat) (c : Context) (name : String) (kind : SpanKind) :
    (w.startSpan task c name kind).1.token = c.token := c.startSpan_token w.ids

/-- These frames, the innermost first, are what entering the stages of a pipeline up to `rest` leaves. -/
inductive Entered (tok : Token) (stages : List Stage) : List Frame → List Stage → Prop where
  | nil : Entered tok stages [] stages
  | guard {fs : List Frame} {rest : List Stage} {id topic : String} : Entered tok stages fs (.recoverer :: rest) →
      Entered tok stages (.guard id topic :: fs) rest
  | correlation {fs : List Frame} {rest : List Stage} : Entered tok stages fs (.correlation :: rest) →
      Entered tok stages (.plain :: fs) rest
  | propagation {fs : List Frame} {rest : List Stage} : Entered tok stages fs (.propagation :: rest) →
      Entered tok stages (.plain :: fs) rest
  | retry {fs : List Frame} {rest : List Stage} {policy : RetryPolicy} {attempt : Nat} {ctx : Context} {m : Message} :
      Entered tok stages fs (.retry policy :: rest) → ctx.token = tok →
      Entered tok stages (.retry policy attempt ctx m rest :: fs) rest
  | dispatch {fs : List Frame} {rest : List Stage} {role : Role} {handler id : String} :
      Entered tok stages fs (.dispatch role handler :: rest) →
      Entered tok stages (.dispatch role handler id :: fs) rest

namespace Entered
variable {tok : Token} {stages rest : List Stage} {fs : List Frame} {f : Frame}

theorem suffix (h : Entered tok stages fs rest) : rest <:+ stages := by
  induction h with
  | nil => exact List.suffix_rfl
  | guard _ ih | correlation _ ih | propagation _ ih | retry _ _ ih | dispatch _ ih =>
    exact (List.suffix_cons _ _).trans ih

theorem length (h : Entered tok stages fs rest) : fs.length + rest.length = stages.length := by
  induction h with
  | nil => simp
  | guard _ ih | correlation _ ih | propagation _ ih | retry _ _ ih | dispatch _ ih =>
    simp only [List.length_cons] at ih ⊢
    omega

/-- The number of frames is the place of the next stage. -/
theorem stage {g : Stage} (h : Entered tok stages fs (g :: rest)) : stages[fs.length]? = some g := by
  have hl := h.length
  obtain ⟨front, rfl⟩ := h.suffix
  rw [List.length_append] at hl
  rw [List.getElem?_append_right (by omega), show fs.length - front.length = 0 by omega]
  rfl

theorem outer (h : Entered tok stages (f :: fs) rest) : ∃ rest', Entered tok stages fs rest' := by
  cases h with
  | guard h | correlation h | propagation h | retry h _ | dispatch h => exact ⟨_, h⟩

/-- What a retry stage remembers is the way ahead of it. -/
theorem ahead {policy : RetryPolicy} {attempt : Nat} {ctx : Context} {m : Message} {rest' : List Stage}
    (h : Entered tok stages (.retry policy attempt ctx m rest' :: fs) rest) : rest' = rest ∧ ctx.token = tok ∧
      ∀ n, Entered tok stages (.retry policy n ctx m rest' :: fs) rest' := by
  cases h with
  | retry h ht => exact ⟨rfl, ht, fun n => .retry h ht⟩

end Entered

namespace Call
variable {tok : Token} {stages : List Stage} {task : Nat} {w w' : World} {c c' : Call}

/-- A call on its way through these stages in contexts with this token. -/
def Stands (tok : Token) (stages : List Stage) (c : Call) : Prop :=
  match c.phase with
  | .entering rest ctx _ => Entered tok stages c.frames rest ∧ ctx.token = tok
  | .acting _ _ ctx | .asleep _ _ _ ctx | .awaiting _ _ ctx | .sending _ _ _ _ _ ctx =>
    Entered tok stages c.frames [] ∧ ctx.token = tok
  | .backoff _ _ => ∃ policy attempt ctx m rest outer, c.frames = .retry policy attempt ctx m rest :: outer ∧
      Entered tok stages c.frames rest
  | .leaving _ => ∃ rest, Entered tok stages c.frames rest

theorem start_stands {route : Nat} {h : Handler} {ctx : Context} {m : Message} :
    (Call.start route stages h ctx m).Stands ctx.token stages := ⟨.nil, rfl⟩

theorem Stands.entering {rest : List Stage} {ctx : Context} {m : Message} (h : c.Stands tok stages)
    (hp : c.phase = .entering rest ctx m) : Entered tok stages c.frames rest ∧ ctx.token = tok := by
  rwa [Stands, hp] at h

theorem Stands.acting {n : Nat} {p : Program} {ctx : Context} (h : c.Stands tok stages)
    (hp : c.phase = .acting n p ctx) : Entered tok stages c.frames [] ∧ ctx.token = tok := by
  rwa [Stands, hp] at h

theorem Stands.leaving {o : Outcome} (h : c.Stands tok stages) (hp : c.phase = .leaving o) :
    ∃ rest, Entered tok stages c.frames rest := by
  rwa [Stands, hp] at h

theorem Stands.backoff {t : Timer} {e : Error} (h : c.Stands tok stages) (hp : c.phase = .backoff t e) :
    ∃ policy attempt ctx m rest outer, c.frames = .retry policy attempt ctx m rest :: outer ∧
      Entered tok stages c.frames rest := by
  rwa [Stands, hp] at h

theorem Stands.pop {f : Frame} {outer : List Frame} {o o' : Outcome} (h : c.Stands tok stages)
    (hp : c.phase = .leaving o) (hf : c.frames = f :: outer) : (c.pop outer o').Stands tok stages := by
  obtain ⟨rest, he⟩ := h.leaving hp
  rw [hf] at he
  exact he.outer

/-- A step of a call keeps it in its pipeline and under its token. -/
theorem Moves.stands (h : c.Moves task w w' c') (hs : c.Stands tok stages) (hn : ∀ f, .filter f ∉ stages) :
    c'.Stands tok stages := by
  have handled : ∀ {n p ctx}, c.phase = .acting n p ctx → ∀ o, (c.goto (.leaving o)).Stands tok stages :=
    fun hp _ => ⟨_, (hs.acting hp).1⟩
  cases h with
  | stays | delivers _ _ => exact hs
  | unhandled hp _ | undecoded hp _ _ _ | refused hp _ _ _ => exact ⟨_, (hs.entering hp).1⟩
  | called hp _ _ _ => exact hs.entering hp
  | guarded hp => exact ⟨.guard (hs.entering hp).1, (hs.entering hp).2⟩
  | marked hp _ | unmarked hp _ => exact ⟨.correlation (hs.entering hp).1, (hs.entering hp).2⟩
  | restored hp => exact ⟨.propagation (hs.entering hp).1, (hs.entering hp).2⟩
  | tried hp => exact ⟨.retry (hs.entering hp).1 (hs.entering hp).2, (hs.entering hp).2⟩
  | passed hp _ | answered hp _ => exact absurd ((hs.entering hp).1.suffix.mem List.mem_cons_self) (hn _)
  | dispatched hp =>
    exact ⟨.dispatch (hs.entering hp).1, (World.startSpan_token _ _ _ _ _).trans (hs.entering hp).2⟩
  | returned hp _ _ | brokeOff hp _ => exact handled hp _
  | slept hp | cancelled hp | awaited hp | unpublished hp _ | published hp _ | unwritten hp _ | unsent hp _ _
  | sent hp _ _ => exact hs.acting hp
  | woke hp _ | freed hp _ | delivered hp _ | undelivered hp _ =>
    rw [Stands, hp] at hs
    exact hs
  | aborted hp hf _ =>
    obtain ⟨_, _, _, _, _, _, -, he⟩ := hs.backoff hp
    rw [hf] at he
    exact he.outer
  | retried hp hf _ _ =>
    obtain ⟨_, _, _, _, _, _, -, he⟩ := hs.backoff hp
    rw [hf] at he
    exact ⟨he.ahead.2.2 _, he.ahead.2.1⟩
  | strayed hp _ =>
    obtain ⟨_, _, _, _, _, _, -, he⟩ := hs.backoff hp
    exact ⟨_, he⟩
  | recovered hp hf | unwound hp hf _ | unretryable hp hf _ | exhausted hp hf _ _ | propagated hp hf _
  | swallowed hp hf _ | left hp hf _ _ _ => exact hs.pop hp hf
  | filtered hp _ hf => exact hs.pop hp hf
  | backsOff hp hf _ _ =>
    obtain ⟨rest, he⟩ := hs.leaving hp
    rw [hf] at he
    exact ⟨_, _, _, _, _, _, hf, hf ▸ he.ahead.2.2 _⟩

/-- A call that goes in, or goes in again, has not been cancelled. -/
theorem Moves.entering_token (h : c.Moves task w w' c') (hs : c.Stands tok stages)
    (hc : ∀ rest ctx m, c.phase = .entering rest ctx m → w.tokens.isCancelled tok = false) :
    ∀ rest ctx m, c'.phase = .entering rest ctx m → w'.tokens.isCancelled tok = false := by
  intro rest ctx m hp'
  cases h with
  | stays => exact hc _ _ _ hp'
  | delivers hp _ =>
    rw [hp] at hp'
    cases hp'
  | guarded hp | marked hp _ | unmarked hp _ | restored hp | tried hp | passed hp _ | dispatched hp => exact hc _ _ _ hp
  | retried hp hf hcancel _ =>
    obtain ⟨_, _, _, _, _, _, -, he⟩ := hs.backoff hp
    rw [hf] at he
    exact he.ahead.2.1 ▸ hcancel
  | unhandled _ _ | undecoded _ _ _ _ | refused _ _ _ _ | called _ _ _ _ | answered _ _ | returned _ _ _ | brokeOff _ _
  | slept _ | cancelled _ | awaited _ | unpublished _ _ | published _ _ | unwritten _ _ | unsent _ _ _ | sent _ _ _
  | woke _ _ | freed _ _ | delivered _ _ | undelivered _ _ | aborted _ _ _ | strayed _ _ | recovered _ _ | unwound _ _ _
  | filtered _ _ _ | unretryable _ _ _ | backsOff _ _ _ _ | exhausted _ _ _ _ | propagated _ _ _ | swallowed _ _ _
  | left _ _ _ _ _ => cases hp'

end Call
end Relay
