import Relay.Proofs.Router.Steps

/-! The supply of identifiers. Nothing that is done by or to a system puts an identifier back or another in its
    place, so a draw that has been made is never made again (`State.apply_grows`). A new span takes its identifier
    from one draw of its own (`Context.startSpan_spec`). -/

namespace Relay

/-- More identifiers of the same supply have been drawn. -/
structure Supply.Grows (ids ids' : Supply) : Prop where
  draws : ids'.draws = ids.draws
  used : ids.used ≤ ids'.used

namespace Supply.Grows
variable {ids ids₁ ids₂ : Supply}

theorem of_eq (h : ids₁ = ids) : ids.Grows ids₁ := by
  subst h
  exact ⟨rfl, Nat.le_refl _⟩

theorem refl (ids : Supply) : ids.Grows ids := of_eq rfl

theorem trans (h₁ : ids.Grows ids₁) (h₂ : ids₁.Grows ids₂) : ids.Grows ids₂ :=
  ⟨h₂.draws.trans h₁.draws, Nat.le_trans h₁.used h₂.used⟩

theorem tail : ids.Grows ids.tail := ⟨rfl, Nat.le_succ _⟩

end Supply.Grows

/-- A new span has drawn its identifier, and keeps the trace and the flags that there are; all else stays as it
    was. -/
theorem Context.startSpan_spec (c : Context) (ids : Supply) : ids.Grows (c.startSpan ids).2 ∧
    ∃ q k, (c.startSpan ids).1 = c.withTrace q ∧ q.spanId = (ids.draws k).spanId ∧ ids.used ≤ k ∧
      k < (c.startSpan ids).2.used ∧ ∀ p, c.trace = some p → q = { p with spanId := q.spanId } := by
  unfold startSpan
  cases hc : c.trace with
  | some p =>
    refine ⟨.tail, _, ids.used, rfl, rfl, Nat.le_refl _, Nat.lt_succ_self _, fun p' hp => ?_⟩
    cases hp
    rfl
  | none => exact ⟨Supply.Grows.tail.trans .tail, _, ids.used + 1, rfl, rfl, Nat.le_succ _, Nat.lt_succ_self _, nofun⟩

namespace World
variable {w w' : World}

@[simp] theorem ids_setExchange (w : World) (port : Port) (e : Exchange) : (w.setExchange port e).ids = w.ids := by
  unfold setExchange
  split <;> rfl

theorem ids_publish {port : Port} {topic : String} {batch : List Message} {pub : Nat}
    (h : w.publish port topic batch = .ok (pub, w')) : w'.ids = w.ids := by
  unfold publish at h
  split at h <;> cases h
  exact ids_setExchange ..

theorem ids_subscribe {port : Port} {tok : Token} {topic : String} {sub : Nat}
    (h : w.subscribe port tok topic = .ok (sub, w')) : w'.ids = w.ids := by
  unfold subscribe at h
  split at h
  · cases h
  · split at h <;> cases h
    exact ids_setExchange ..

theorem fulfilOne_grows (w : World) (d : Draft) : w.ids.Grows (w.fulfilOne d).2.ids := by
  unfold fulfilOne
  split
  · exact .refl _
  · exact .tail

theorem fulfil_grows (w : World) (ds : List Draft) : w.ids.Grows (w.fulfil ds).2.ids := by
  induction ds generalizing w with
  | nil => exact .refl _
  | cons d ds ih => exact (w.fulfilOne_grows d).trans (ih _)

end World

theorem Call.Moves.grows {task : Nat} {w w' : World} {c c' : Call} (h : c.Moves task w w' c') : w.ids.Grows w'.ids := by
  cases h with
  | stays | unhandled _ _ | undecoded _ _ _ _ | refused _ _ _ _ | called _ _ _ _ | guarded _ | unmarked _ _ | restored _
  | tried _ | passed _ _ | answered _ _ | returned _ _ _ | brokeOff _ _ | slept _ | cancelled _ | awaited _ | woke _ _
  | freed _ _ | delivered _ _ | undelivered _ _ | aborted _ _ _ | retried _ _ _ _ | strayed _ _ | recovered _ _
  | unwound _ _ _ | filtered _ _ _ | unretryable _ _ _ | backsOff _ _ _ _ | exhausted _ _ _ _ | propagated _ _ _
  | swallowed _ _ _ | left _ _ _ _ _ => exact .refl _
  | marked _ _ => exact .tail
  | dispatched _ | unwritten _ _ => exact (Context.startSpan_spec _ w.ids).1
  | unpublished _ _ => exact World.fulfil_grows ..
  | published _ hx => exact (World.fulfil_grows ..).trans (.of_eq (World.ids_publish hx))
  | unsent _ _ _ => exact (Context.startSpan_spec _ w.ids).1.trans .tail
  | sent _ _ hx => exact ((Context.startSpan_spec _ w.ids).1.trans .tail).trans (.of_eq (World.ids_publish hx))
  | delivers _ _ => exact .of_eq (World.ids_setExchange ..)

namespace State
variable {s : State} {o : Op}

theorem ids_reported (s : State) (t : Nat) (e : LifecycleError) : (s.reported t e).ids = s.world.ids := by
  unfold reported
  split <;> rfl

end State

theorem Task.Moves.grows {s : State} {t : Nat} {k k' : Task} {x : World} {r : Router} {new : List Task}
    (h : k.Moves s t x r new k') : s.world.ids.Grows x.ids := by
  cases h with
  | stays | learns _ | unsent _ | sent _ | rings _ => exact .refl _
  | call hc | errand _ hc => exact hc.grows
  | worker hw =>
    cases hw with
    | stays | takes _ _ _ _ | stops _ _ | succeeds _ _ | fails _ _ _ | breaksOff _ _ => exact .refl _
    | works _ _ hc => exact hc.grows
  | run hv =>
    cases hv with
    | stays | begins _ _ | skips _ _ | breaksOff _ _ _ | serves _ _ | joins _ _ _ _ | drains _ _ | awaits _ _ _ =>
      exact .refl _
    | rejected _ _ => exact .of_eq (s.ids_reported ..)
    | subscribes _ _ hs => exact .of_eq (World.ids_subscribe hs)
    | declined _ _ _ hx =>
      subst hx
      exact .of_eq (State.ids_reported ..)
    | finishes _ hx =>
      subst hx
      split <;> exact .refl _
  | close hc =>
    cases hc with
    | stays | tells _ _ | returns _ _ _ => exact .refl _
    | rejected _ _ | fails _ _ _ => exact .of_eq (s.ids_reported ..)

namespace State
variable {s : State} {o : Op}

theorem register_ids {ε : Type} (s : State) (r : Except ε Router) : (s.register r).world.ids = s.world.ids := by
  cases r <;> rfl

theorem turn_grows (s : State) (t : Nat) (b : Branch) : s.world.ids.Grows (s.turn t b).world.ids := by
  unfold turn
  dsimp only
  cases hk : s.tasks[t]? with
  | none =>
    have hm : s.micro t b = s := by simp [micro, hk]
    rw [hm]
    exact .refl _
  | some k =>
    obtain ⟨x, r, new, k', hmoves, hm⟩ := micro_moves b hk
    rw [hm]
    exact hmoves.grows

/-- Whatever is done to a system, or by it, leaves what has been drawn as it is. -/
theorem apply_grows (s : State) (o : Op) : s.world.ids.Grows (s.apply o).world.ids := by
  cases o with
  | turn t b => exact s.turn_grows t b
  | addStage g => exact .of_eq (s.register_ids _)
  | addRoutes rs => exact .of_eq (s.register_ids _)
  | addHandlers role c bs =>
    rcases s.addHandlers_cases role c bs with ⟨r, -, h⟩ | ⟨e, -, h | ⟨id, h⟩⟩
    all_goals
      rw [apply, h]
      exact .refl _
  | send v c =>
    rw [apply]
    split <;> exact .refl _
  | call stages h c d => exact s.world.fulfilOne_grows d
  | abandon t =>
    rw [apply]
    split <;> exact .refl _
  | subscribe tok topic =>
    rw [apply]
    split
    · rename_i h
      exact .of_eq (World.ids_subscribe h)
    · exact .refl _
  | poll sub | drop sub | closeExchange => exact .of_eq (World.ids_setExchange ..)
  | token | derive _ | cancel _ | run _ | close | awaitStart | publish _ _ | alarm _ _ | tick _ => exact .refl _

end State
end Relay
