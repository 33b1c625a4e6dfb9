import Relay.Proofs.Isolation.Still
import Relay.Proofs.Isolation.Veil

/-! Calls up to generated identifiers. A handler or a filter is blind if it does the same behind the veil
    as in the open; a call of such a handler through such filters takes the same step whether its messages
    and contexts are veiled or not (`Call.Tame.step_veil`). -/

namespace Relay
variable (drawn : Uuid → Prop)

noncomputable def Verdict.veil : Verdict → Verdict
  | pass c m => pass (c.veil drawn) (m.veil drawn)
  | answer o => answer o

noncomputable def Frame.veil : Frame → Frame
  | plain => plain
  | guard id topic => guard (Veil.text drawn id) topic
  | retry policy attempt c m rest => retry policy attempt (c.veil drawn) (m.veil drawn) rest
  | filter leave => filter leave
  | dispatch role handler id => dispatch role handler (Veil.text drawn id)

/-- A timer without its place among those that fall together. -/
def Timer.bare (t : Timer) : Timer := { t with order := 0 }

noncomputable def Phase.veil : Phase → Phase
  | entering rest c m => entering rest (c.veil drawn) (m.veil drawn)
  | acting n p c => acting n p (c.veil drawn)
  | asleep t n p c => asleep t.bare n p (c.veil drawn)
  | awaiting n p c => awaiting n p (c.veil drawn)
  | sending port pub wrap n p c => sending port pub wrap n p (c.veil drawn)
  | backoff t e => backoff t.bare e
  | leaving o => leaving o

/-- A call behind the veil. -/
noncomputable def Call.veil (c : Call) : Call :=
  { c with frames := c.frames.map (Frame.veil drawn), phase := c.phase.veil drawn }

/-- A filter that does alike on what is alike up to generated identifiers. -/
def Filter.Blind (f : Filter) : Prop := ∀ c c' m m', c.veil drawn = c'.veil drawn → m.veil drawn = m'.veil drawn →
  (f.enter c m).veil drawn = (f.enter c' m').veil drawn

/-- A handler that does the same on what is alike up to generated identifiers. -/
def Handler.Blind (h : Handler) : Prop := ∀ n c c' i i', c.veil drawn = c'.veil drawn →
  i.veil drawn = i'.veil drawn → h.play n c i = h.play n c' i'

variable {drawn}

@[simp] theorem Frame.veil_veil (f : Frame) : (f.veil drawn).veil drawn = f.veil drawn := by
  cases f <;> simp [Frame.veil, Veil.text_text]

@[simp] theorem Phase.veil_veil (p : Phase) : (p.veil drawn).veil drawn = p.veil drawn := by
  cases p <;> simp [Phase.veil, Timer.bare]

@[simp] theorem Call.veil_veil (c : Call) : (c.veil drawn).veil drawn = c.veil drawn := by
  have hframes : Frame.veil drawn ∘ Frame.veil drawn = Frame.veil drawn := funext Frame.veil_veil
  simp [Call.veil, hframes]

@[simp] theorem Call.veil_goto (c : Call) (p : Phase) : (c.goto p).veil drawn = (c.veil drawn).goto (p.veil drawn) := rfl

theorem Call.start_veil (route : Nat) (stages : List Stage) (h : Handler) (c : Context) (m : Message) :
    (Call.start route stages h c m).veil drawn = .start route stages h (c.veil drawn) (m.veil drawn) := rfl

theorem Call.outcome?_veil (c : Call) : (c.veil drawn).outcome? = c.outcome? := by
  obtain ⟨route, handler, frames, phase⟩ := c
  cases phase <;> cases frames <;> rfl

/-- A handler of values that takes no notice of contexts. -/
theorem Binding.blind {b : Binding} (h : ∀ n c c' v, b.play n c v = b.play n c' v) : b.handler.Blind drawn := by
  intro n c c' i i' _ hi
  cases i with
  | message m =>
    cases i' with
    | message m' => rfl
    | value v' => cases hi
  | value v =>
    cases i' with
    | message m' => cases hi
    | value v' =>
      obtain rfl : v = v' := by injection hi
      exact congrArg Invocation.started (h n c c' v)

/-! ### What is written down -/

/-- What comes to a handler: a message is taken for it, or it is called, after how many other calls and with
    what, each with its time. -/
inductive Arrival where
  | taken (time : Nat) (m : Message)
  | called (time n : Nat) (context : Context) (cancelled : Bool) (input : Input)

noncomputable def Arrival.veil (drawn : Uuid → Prop) : Arrival → Arrival
  | taken time m => taken time (m.veil drawn)
  | called time n context cancelled input => called time n (context.veil drawn) cancelled (input.veil drawn)

def Event.isArrival : Event → Bool
  | taken .. | called .. => true
  | _ => false

def Entry.arrival? (e : Entry) : Option Arrival :=
  match e.event with
  | .taken _ m => some (.taken e.time m)
  | .called _ n c cancelled i => some (.called e.time n c cancelled i)
  | _ => none

theorem Entry.arrival?_eq_none {e : Entry} (h : e.event.isArrival = false) : e.arrival? = none := by
  unfold arrival?
  cases he : e.event <;> simp_all [Event.isArrival]

namespace World
variable {w w' : World} {t u : Nat} {e : Event}

/-- What comes to the handler of a task, the earliest first. -/
def arrivals (w : World) (t : Nat) : List Arrival :=
  (w.journal.filter (·.task == t)).reverse.filterMap Entry.arrival?

theorem arrivals_congr (h : w'.journal = w.journal) : w'.arrivals t = w.arrivals t := by rw [arrivals, arrivals, h]

theorem arrivals_of_append {new : List Entry} (hj : w'.journal = new ++ w.journal)
    (hn : ∀ e ∈ new, e.task = t → e.event.isArrival = false) : w'.arrivals t = w.arrivals t := by
  have hnone : (new.filter (·.task == t)).reverse.filterMap Entry.arrival? = [] :=
    List.filterMap_eq_nil_iff.mpr fun e he => by
      obtain ⟨hmem, ht⟩ := List.mem_filter.mp (List.mem_reverse.mp he)
      exact Entry.arrival?_eq_none (hn e hmem (by simpa using ht))
  rw [arrivals, arrivals, hj, List.filter_append, List.reverse_append, List.filterMap_append, hnone, List.append_nil]

theorem arrivals_note_called {h : String} {n : Nat} {c : Context} {b : Bool} {i : Input} :
    (w.note t (.called h n c b i)).arrivals t = w.arrivals t ++ [.called w.clock n c b i] := by
  simp [arrivals, note, Entry.arrival?]

theorem arrivals_note_taken {r : Nat} {m : Message} :
    (w.note t (.taken r m)).arrivals t = w.arrivals t ++ [.taken w.clock m] := by
  simp [arrivals, note, Entry.arrival?]

theorem arrivals_note (h : e.isArrival = false) : (w.note t e).arrivals u = w.arrivals u :=
  @arrivals_of_append _ _ _ [⟨w.clock, t, e⟩] rfl fun _ he _ => by
    obtain rfl := List.mem_singleton.mp he
    exact h

end World

/-! ### One step, veiled and unveiled -/

/-- A world that is the same for a call on route `r`, but draws nothing but the mask, and has nothing written
    down. -/
structure World.Mirrors (drawn : Uuid → Prop) (r : Nat) (w x : World) : Prop where
  clock : x.clock = w.clock
  tokens : x.tokens = w.tokens
  calls : x.calls[r]? = w.calls[r]?
  hidden : w.ids.Hidden drawn
  masked : x.ids = Supply.masks
  journal : x.journal = []

theorem World.Mirrors.arrivals {r u : Nat} {w x : World} (h : w.Mirrors drawn r x) : x.arrivals u = [] := by
  rw [World.arrivals, h.journal]
  rfl

namespace Call
variable {task task' : Nat} {w x : World} {c : Call}

theorem veil_push (c : Call) (f : Frame) (rest : List Stage) (ctx : Context) (m : Message) :
    (c.push f rest ctx m).veil drawn = (c.veil drawn).push (f.veil drawn) rest (ctx.veil drawn) (m.veil drawn) := rfl

/-- A call that waits for no publication. -/
def Unsent (c : Call) : Prop := ∀ port pub wrap n p ctx, c.phase ≠ .sending port pub wrap n p ctx

theorem Tame.unsent {ok : Filter → Prop} (ht : c.Tame ok) : c.Unsent := fun _ _ _ _ _ _ => ht.not_sending

theorem isReady_veil (hu : c.Unsent) (hclock : x.clock = w.clock) (htokens : x.tokens = w.tokens) :
    (c.veil drawn).isReady x = c.isReady w := by
  have hdue : ∀ t : Timer, x.isDue t.bare = w.isDue t := fun t => by rw [World.isDue, World.isDue, hclock]; rfl
  have hcancel : ∀ ctx : Context, x.isCancelled (ctx.veil drawn) = w.isCancelled ctx := fun ctx => by
    rw [World.isCancelled, World.isCancelled, htokens]
    rfl
  obtain ⟨route, handler, frames, phase⟩ := c
  cases phase with
  | entering _ _ _ | acting _ _ _ => rfl
  | leaving o => cases frames <;> rfl
  | asleep t n p ctx => exact hdue t
  | awaiting n p ctx => exact hcancel ctx
  | sending port pub wrap n p ctx => exact absurd rfl (hu _ _ _ _ _ _)
  | backoff t e =>
    cases frames with
    | nil => exact congrArg (· || false) (hdue t)
    | cons f outer =>
      cases f with
      | plain | guard _ _ | filter _ | dispatch _ _ _ => exact congrArg (· || false) (hdue t)
      | retry policy n ctx m rest =>
        show (x.isDue t.bare || x.isCancelled (ctx.veil drawn)) = (w.isDue t || w.isCancelled ctx)
        rw [hdue, hcancel]

theorem step_entering {ctx : Context} {m : Message} (hp : c.phase = .entering [] ctx m) :
    c.step task w = c.invoke task w ctx m := by rw [step, hp]

theorem step_acting {n : Nat} {p : Program} {ctx : Context} (hp : c.phase = .acting n p ctx) :
    c.step task w = c.act task w n p ctx := by rw [step, hp]

/-- A message has an identifier for its correlation behind the veil if it has one in the open. -/
theorem correlation_veil (m : Message) : ((m.veil drawn).metadata.get? correlationKey).getD "" = "" ↔
    (m.metadata.get? correlationKey).getD "" = "" := by
  rw [Message.veil, Veil.get?_metadata]
  cases m.metadata.get? correlationKey with
  | none => exact Iff.rfl
  | some id =>
    show Veil.entry drawn correlationKey id = "" ↔ id = ""
    rw [Veil.entry_of_ne correlationKey_ne, Veil.text_eq_empty]

theorem enter_veil {s : Stage} {rest : List Stage} {ctx : Context} {m : Message} (h : w.Mirrors drawn c.route x)
    (hf : ∀ f, s = .filter f → f.Blind drawn) :
    (c.enter task w s rest ctx m).2.veil drawn =
      ((c.veil drawn).enter task' x s rest (ctx.veil drawn) (m.veil drawn)).2.veil drawn := by
  have pushed : ∀ {f f' : Frame} {ctx ctx' : Context} {m m' : Message}, f.veil drawn = f'.veil drawn →
      ctx.veil drawn = ctx'.veil drawn → m.veil drawn = m'.veil drawn →
      (c.push f rest ctx m).veil drawn = ((c.veil drawn).push f' rest ctx' m').veil drawn := by
    intro f f' ctx ctx' m m' hf hc hm
    rw [veil_push, veil_push, hf, hc, hm, veil_veil]
  cases s with
  | recoverer => exact pushed (Frame.veil_veil (.guard m.id m.topic)).symm (Context.veil_veil _).symm (Message.veil_veil _).symm
  | correlation =>
    unfold enter
    dsimp only
    by_cases hm : (m.metadata.get? correlationKey).getD "" = ""
    · rw [if_pos hm, if_pos ((correlation_veil m).mpr hm)]
      refine pushed rfl (Context.veil_veil _).symm ?_
      -- The identifier that is drawn is hidden, and the other one is the mask.
      have hid : Veil.entry drawn correlationKey (w.draw.1.text) = Uuid.mask.text := by
        rw [Veil.entry_of_ne correlationKey_ne]
        exact Veil.text_hidden (h.hidden _)
      have hmask : Veil.entry drawn correlationKey ((x.note task' (.entered (c.veil drawn).frames.length)).draw.1.text) =
          Uuid.mask.text := by
        rw [show (x.note task' (.entered (c.veil drawn).frames.length)).draw.1 = Uuid.mask from
          congrArg Supply.head h.masked, Veil.entry_of_ne correlationKey_ne, Veil.text_mask]
      rw [Message.veil_withMetadata, Message.veil_withMetadata, hmask, Message.veil_veil]
      exact congrArg _ hid
    · rw [if_neg hm, if_neg fun hv => hm ((correlation_veil m).mp hv)]
      exact pushed rfl (Context.veil_veil _).symm (Message.veil_veil _).symm
  | propagation =>
    refine pushed rfl ?_ (Message.veil_veil _).symm
    rw [extract_veil, extract_veil]
    exact congrArg (extract _) Veil.metadata_metadata.symm
  | retry policy =>
    exact pushed (Frame.veil_veil (.retry policy 1 ctx m rest)).symm (Context.veil_veil _).symm (Message.veil_veil _).symm
  | filter f =>
    have hv := hf f rfl ctx (ctx.veil drawn) m (m.veil drawn) (Context.veil_veil _).symm (Message.veil_veil _).symm
    unfold enter
    dsimp only
    cases he : f.enter ctx m with
    | answer o =>
      rw [he] at hv
      cases he' : f.enter (ctx.veil drawn) (m.veil drawn) with
      | pass _ _ =>
        rw [he'] at hv
        cases hv
      | answer o' =>
        rw [he'] at hv
        cases hv
        exact (veil_veil _).symm
    | pass ctx₁ m₁ =>
      rw [he] at hv
      cases he' : f.enter (ctx.veil drawn) (m.veil drawn) with
      | answer _ =>
        rw [he'] at hv
        cases hv
      | pass ctx₂ m₂ =>
        rw [he'] at hv
        injection hv with hc hm
        exact pushed rfl hc hm
  | dispatch role handler =>
    refine pushed (Frame.veil_veil (.dispatch role handler m.id)).symm ?_ (Message.veil_veil _).symm
    have hspan := Context.startSpan_veil ctx h.hidden
    show ((ctx.startSpan w.ids).1).veil drawn = (((ctx.veil drawn).startSpan x.ids).1).veil drawn
    rw [show ((ctx.veil drawn).startSpan x.ids).1 = ((ctx.startSpan w.ids).1).veil drawn from h.masked ▸ hspan.symm,
      Context.veil_veil]

theorem leave_veil {f : Frame} {outer : List Frame} {o : Outcome} (h : w.Mirrors drawn c.route x)
    (hf : c.frames = f :: outer) :
    (c.leave task w f outer o).2.veil drawn =
      ((c.veil drawn).leave task' x (f.veil drawn) (outer.map (Frame.veil drawn)) o).2.veil drawn := by
  have popped : ∀ o, (c.pop outer o).veil drawn =
      ((c.veil drawn).pop (outer.map (Frame.veil drawn)) o).veil drawn := fun o => by
    rw [← veil_veil]
    rfl
  cases o with
  | ok => cases f <;> exact popped _
  | panicked reason => cases f <;> exact popped _
  | failed e =>
    cases f with
    | plain => exact popped _
    | guard id topic => exact popped _
    | filter g => exact popped _
    | dispatch role handler id =>
      unfold leave Frame.veil
      dsimp only
      split <;> exact popped _
    | retry policy attempt ctx m rest =>
      unfold leave Frame.veil
      dsimp only
      split
      · exact popped _
      · split
        · show (c.goto _).veil drawn = ((c.veil drawn).goto _).veil drawn
          rw [veil_goto, veil_goto, veil_veil]
          simp only [Phase.veil, World.setTimer, Timer.bare, h.clock]
        · exact popped _

theorem resume_veil {t : Timer} {e : Error} (h : w.Mirrors drawn c.route x) :
    (c.resume task w t e).2.veil drawn = ((c.veil drawn).resume task' x t.bare e).2.veil drawn := by
  have hdue : x.isDue t.bare = w.isDue t := by rw [World.isDue, World.isDue, h.clock]; rfl
  have hcancel : ∀ ctx : Context, x.isCancelled (ctx.veil drawn) = w.isCancelled ctx := fun ctx => by
    rw [World.isCancelled, World.isCancelled, h.tokens]
    rfl
  obtain ⟨route, handler, frames, phase⟩ := c
  cases frames with
  | nil => rfl
  | cons f outer =>
    cases f with
    | retry policy attempt ctx m rest =>
      unfold resume Call.veil
      simp only [List.map_cons, Frame.veil, hcancel, hdue]
      split
      · exact (veil_veil _).symm
      · split <;> exact (veil_veil _).symm
    | plain | guard _ _ | filter _ | dispatch _ _ _ => exact (veil_veil _).symm

theorem act_veil {n : Nat} {p : Program} {ctx : Context} (h : w.Mirrors drawn c.route x) (hp : p.Still) :
    (c.act task w n p ctx).2.veil drawn = ((c.veil drawn).act task' x n p (ctx.veil drawn)).2.veil drawn := by
  obtain ⟨route, handler, frames, phase⟩ := c
  cases p with
  | finish o => cases handler <;> cases o <;> exact (veil_veil _).symm
  | sleep ms next =>
    simp only [act, Call.veil, Call.goto, Phase.veil, World.setTimer, Timer.bare, h.clock, Context.veil_veil]
    rw [List.map_map, show Frame.veil drawn ∘ Frame.veil drawn = Frame.veil drawn from funext Frame.veil_veil]
  | awaitCancel next => exact (veil_veil _).symm
  | cancel _ | publish _ _ _ | send _ _ => exact hp.elim

/-- What a step comes to in the open, and what it comes to behind the veil. -/
structure Mirrored (drawn : Uuid → Prop) (task task' : Nat) (w : World) (r r' : World × Call) : Prop where
  call : r.2.veil drawn = r'.2.veil drawn
  calls : r'.1.calls[r.2.route]? = r.1.calls[r.2.route]?
  arrivals : (r.1.arrivals task).map (·.veil drawn) =
    (w.arrivals task).map (·.veil drawn) ++ (r'.1.arrivals task').map (·.veil drawn)

/-- Before a call has come to its handler, and after that, no handler is called. -/
theorem Moves.arrivals {w' : World} {c' : Call} {u : Nat} (hm : c.Moves task w w' c')
    (hp : ∀ ctx m, c.phase ≠ .entering [] ctx m) : w'.arrivals u = w.arrivals u := by
  have ht : World.Touches (fun _ => True) c.Writes task w w' := hm.touches
  obtain ⟨new, hj, hn⟩ := ht.journal
  refine World.arrivals_of_append hj fun e he _ => ?_
  obtain ⟨-, hinner, hcall⟩ := hn e he
  cases hev : e.event with
  | taken _ _ =>
    rw [hev] at hinner
    cases hinner
  | called _ _ _ _ _ =>
    obtain ⟨ctx, m, -, hphase, -⟩ := hcall (by rw [hev]; rfl)
    exact absurd hphase (hp ctx m)
  | settled _ _ _ | entered _ | left _ | returned _ _ _ _ | spanned _ _ | noticed _ => rfl

theorem play_veil {hd : Handler} {ctx : Context} {i i' : Input} (h : w.Mirrors drawn c.route x)
    (hb : hd.Blind drawn) (hi : i.veil drawn = i') :
    Mirrored drawn task task' w (c.play task w hd ctx i) ((c.veil drawn).play task' x hd (ctx.veil drawn) i') := by
  have hcalls : (x.calls.modify c.route (· + 1))[c.route]? = (w.calls.modify c.route (· + 1))[c.route]? := by
    simp only [List.getElem?_modify, h.calls]
  have hn : x.calls[c.route]?.getD 0 = w.calls[c.route]?.getD 0 := by rw [h.calls]
  have hplay : hd.play (x.calls[c.route]?.getD 0) (ctx.veil drawn) i' = hd.play (w.calls[c.route]?.getD 0) ctx i := by
    rw [hn]
    subst hi
    exact hb _ _ _ _ _ (Context.veil_veil ctx) (Input.veil_veil i)
  have quiet : ∀ u, (c.arrived task w).arrivals u = w.arrivals u := fun u =>
    (World.arrivals_note rfl).trans (World.arrivals_congr rfl)
  have quiet' : ∀ u, ((c.veil drawn).arrived task' x).arrivals u = [] := fun u =>
    ((World.arrivals_note rfl).trans (World.arrivals_congr rfl)).trans h.arrivals
  unfold play
  dsimp only
  rw [show x.calls[(c.veil drawn).route]?.getD 0 = x.calls[c.route]?.getD 0 from rfl, hplay]
  cases hd.play (w.calls[c.route]?.getD 0) ctx i with
  | refused reason =>
    refine ⟨(veil_veil _).symm, hcalls, ?_⟩
    show ((c.arrived task w).arrivals task).map _ = _ ++ (((c.veil drawn).arrived task' x).arrivals task').map _
    rw [quiet, quiet']
    simp
  | started p =>
    refine ⟨?_, hcalls, ?_⟩
    · dsimp only
      rw [hn]
      exact (veil_veil _).symm
    · show (((c.arrived task w).note task _).arrivals task).map _ =
        _ ++ ((((c.veil drawn).arrived task' x).note task' _).arrivals task').map _
      rw [World.arrivals_note_called, World.arrivals_note_called, quiet, quiet', List.map_append, List.nil_append]
      refine congrArg _ (congrArg (fun a => [a]) ?_)
      subst hi
      simp [Arrival.veil, h.clock, hn, World.isCancelled, Context.isCancelled, h.tokens, arrived, World.note]

theorem invoke_veil {ctx : Context} {m : Message} (h : w.Mirrors drawn c.route x)
    (hb : ∀ hd, c.handler = some hd → hd.Blind drawn) :
    Mirrored drawn task task' w (c.invoke task w ctx m)
      ((c.veil drawn).invoke task' x (ctx.veil drawn) (m.veil drawn)) := by
  have ends : ∀ o, Mirrored drawn task task' w (w, c.goto (.leaving o)) (x, (c.veil drawn).goto (.leaving o)) :=
    fun o => ⟨(veil_veil _).symm, h.calls, by simp [h.arrivals]⟩
  unfold invoke
  rw [show (c.veil drawn).handler = c.handler from rfl]
  cases hh : c.handler with
  | none => exact ends _
  | some hd =>
    dsimp only
    cases hr : hd.reads with
    | none => exact play_veil h (hb hd hh) rfl
    | some read =>
      dsimp only
      rw [unmarshal_veil]
      cases unmarshal read m with
      | error e => exact ends _
      | ok v => exact play_veil h (hb hd hh) rfl

theorem unarrived_veil (h : ∀ ctx m, c.phase ≠ .entering [] ctx m) :
    ∀ ctx m, (c.veil drawn).phase ≠ .entering [] ctx m := fun ctx m hp => by
  obtain ⟨route, handler, frames, phase⟩ := c
  cases phase with
  | entering rest ctx' m' =>
    obtain rfl : rest = [] := (Phase.entering.inj hp).1
    exact h _ _ rfl
  | acting _ _ _ | asleep _ _ _ _ | awaiting _ _ _ | sending _ _ _ _ _ _ | backoff _ _ | leaving _ => cases hp

/-- A call that is not ready stays as it is. -/
theorem step_of_not_ready (hu : c.Unsent) (hb : ∀ {t : Timer} {e : Error}, c.phase = .backoff t e →
      ∃ policy n ctx m rest outer, c.frames = .retry policy n ctx m rest :: outer)
    (ho : c.outcome? = none) (hr : c.isReady w = false) : c.step task w = (w, c) := by
  obtain ⟨route, handler, frames, phase⟩ := c
  cases phase with
  | entering _ _ _ | acting _ _ _ => cases hr
  | leaving o =>
    cases frames with
    | nil => rfl
    | cons f outer => cases hr
  | asleep t n p ctx =>
    replace hr : w.isDue t = false := hr
    simp [step, hr]
  | awaiting n p ctx =>
    replace hr : w.isCancelled ctx = false := hr
    simp [step, hr]
  | sending port pub wrap n p ctx => exact absurd rfl (hu _ _ _ _ _ _)
  | backoff t e =>
    obtain ⟨policy, n, ctx, m, rest, outer, rfl⟩ := hb rfl
    replace hr : (w.isDue t || w.isCancelled ctx) = false := hr
    obtain ⟨hd, hc⟩ := Bool.or_eq_false_iff.mp hr
    simp [step, resume, hd, hc]

/-- On its way through the stages and at its waits a call takes the same step behind the veil as in the open. -/
theorem pass_veil (hf : ∀ {g : Stage} {rest : List Stage} {ctx : Context} {m : Message},
      c.phase = .entering (g :: rest) ctx m → ∀ f, g = .filter f → f.Blind drawn)
    (hq : ∀ ctx m, c.phase ≠ .entering [] ctx m) (ha : ∀ n p ctx, c.phase ≠ .acting n p ctx)
    (hu : c.Unsent) (h : w.Mirrors drawn c.route x) :
    (c.step task w).2.veil drawn = ((c.veil drawn).step task' x).2.veil drawn := by
  have hcancel : ∀ ctx : Context, x.isCancelled (ctx.veil drawn) = w.isCancelled ctx := fun ctx => by
    rw [World.isCancelled, World.isCancelled, h.tokens]
    rfl
  unfold step
  rw [show (c.veil drawn).phase = c.phase.veil drawn from rfl]
  cases hp : c.phase with
  | entering rest ctx m =>
    cases rest with
    | nil => exact absurd hp (hq _ _)
    | cons s rest => exact enter_veil h (hf hp)
  | acting n p ctx => exact absurd hp (ha _ _ _)
  | asleep t n p ctx =>
    have hdue : x.isDue t.bare = w.isDue t := by rw [World.isDue, World.isDue, h.clock]; rfl
    simp only [Phase.veil, hdue]
    split <;> exact (veil_veil _).symm
  | awaiting n p ctx =>
    simp only [Phase.veil, hcancel]
    split <;> exact (veil_veil _).symm
  | sending port pub wrap n p ctx => exact absurd hp (hu _ _ _ _ _ _)
  | backoff t e => exact resume_veil h
  | leaving o =>
    simp only [Phase.veil]
    rw [show (c.veil drawn).frames = c.frames.map (Frame.veil drawn) from rfl]
    cases hf : c.frames with
    | nil => exact (veil_veil _).symm
    | cons f outer => exact leave_veil h hf

namespace Tame

theorem veil {ok : Filter → Prop} (ht : c.Tame ok) : (c.veil drawn).Tame ok := by
  refine ⟨ht.handler, fun hm f hf => ?_, ?_⟩
  · obtain ⟨f₀, hm₀, he⟩ := List.mem_map.mp hm
    cases f₀ with
    | retry policy n ctx m rest =>
      cases he
      exact ht.frames hm₀ f hf
    | plain | guard _ _ | filter _ | dispatch _ _ _ => cases he
  · have hp := ht.phase
    obtain ⟨route, handler, frames, phase⟩ := c
    cases phase with
    | backoff t e =>
      obtain ⟨policy, n, ctx, m, rest, outer, rfl⟩ := hp
      exact ⟨_, _, _, _, _, _, rfl⟩
    | entering _ _ _ | acting _ _ _ | asleep _ _ _ _ | awaiting _ _ _ | sending _ _ _ _ _ _ | leaving _ => exact hp

/-- Behind the veil such a call takes the same step as in the open. -/
theorem step_veil (ht : c.Tame (Filter.Blind drawn)) (hb : ∀ hd, c.handler = some hd → hd.Blind drawn)
    (h : w.Mirrors drawn c.route x) :
    Mirrored drawn task task' w (c.step task w) ((c.veil drawn).step task' x) := by
  by_cases hentry : ∃ ctx m, c.phase = .entering [] ctx m
  · obtain ⟨ctx, m, hp⟩ := hentry
    rw [c.step_entering hp, (c.veil drawn).step_entering (congrArg (Phase.veil drawn) hp)]
    exact invoke_veil h hb
  · have hquiet : ∀ ctx m, c.phase ≠ .entering [] ctx m := fun ctx m hp => hentry ⟨ctx, m, hp⟩
    have hquiet' : ∀ ctx m, (c.veil drawn).phase ≠ .entering [] ctx m := unarrived_veil hquiet
    have hm := c.step_moves task w
    have hm' := (c.veil drawn).step_moves task' x
    refine ⟨?_, ?_, ?_⟩
    · by_cases hacting : ∃ n p ctx, c.phase = .acting n p ctx
      · obtain ⟨n, p, ctx, hp⟩ := hacting
        rw [c.step_acting hp, (c.veil drawn).step_acting (congrArg (Phase.veil drawn) hp)]
        exact act_veil h (ht.acting hp)
      · exact pass_veil (fun hp f hf => ht.entering hp f (hf ▸ List.mem_cons_self)) hquiet
          (fun n p ctx hp => hacting ⟨n, p, ctx, hp⟩) ht.unsent h
    · rw [hm.same.2, ht.counts hm hquiet, ht.veil.counts hm' hquiet', h.calls]
    · rw [hm.arrivals hquiet, hm'.arrivals hquiet', h.arrivals]
      simp

theorem stuck {ok : Filter → Prop} (ht : c.Tame ok) (ho : c.outcome? = none) (hr : c.isReady w = false) :
    c.step task w = (w, c) :=
  step_of_not_ready ht.unsent (fun hp => ht.backoff hp) ho hr

end Tame
end Call
end Relay
