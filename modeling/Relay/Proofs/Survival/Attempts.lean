import Relay.Proofs.Broker.Dealings
import Relay.Proofs.Survival.Peace

/-! Attempts. The retry stage of a broker remembers which attempt it is at, and what lies inside of it writes
    down when a message comes to it; so the dealing of a message has one entry inside the retry stage for each
    attempt that has begun there, whatever further stages there are. -/

namespace Relay

namespace Broker
variable {tok : Token} {fs outer : List Frame} {f : Frame} {rest : List Stage}

/-- The attempt at which the retry stage of a broker is, if it is among these frames. -/
def attempt? (fs : List Frame) : Option Nat :=
  match fs.reverse[retryPlace]? with
  | some (.retry _ n _ _ _) => some n
  | _ => none

theorem attempt?_cons (h : retryPlace < fs.length) : attempt? (f :: fs) = attempt? fs := by
  unfold attempt?
  rw [List.reverse_cons, List.getElem?_append_left (by simpa using h)]

theorem attempt?_retry {policy : RetryPolicy} {n : Nat} {ctx : Context} {m : Message} (h : fs.length = retryPlace) :
    attempt? (.retry policy n ctx m rest :: fs) = some n := by
  unfold attempt?
  rw [List.reverse_cons, List.getElem?_append_right (by simp [h])]
  simp [h]

theorem retryPlace_lt_of_attempt? {n : Nat} (h : attempt? fs = some n) : retryPlace < fs.length := by
  refine Nat.lt_of_not_le fun hl => ?_
  unfold attempt? at h
  rw [List.getElem?_eq_none (by simpa using hl)] at h
  cases h

theorem Ahead.length_le (h : Ahead fs rest) : fs.length ≤ Broker.retryPlace := by
  cases h <;> simp [Broker.retryPlace]

/-- Behind three of its stages, a broker has its retry stage. -/
theorem Ahead.retry_next (h : Ahead fs rest) (hl : fs.length = Broker.retryPlace) :
    ∃ p more, rest = .retry p :: more := by
  cases h with
  | restored => exact ⟨_, _, rfl⟩
  | outside | guarded | marked => cases hl

end Broker

namespace Call
variable {tok : Token} {task n : Nat} {w w' : World} {c c' : Call}

/-- So often has a call come to what lies inside the retry stage of its broker, if it is still in that stage. -/
inductive Tried (n : Nat) (c : Call) : Prop where
  | before {rest : List Stage} {ctx : Context} {m : Message} : c.phase = .entering rest ctx m →
      c.frames.length ≤ Broker.retryPlace → n = 0 → Tried n c
  /-- It is about to, for the next attempt. -/
  | trying {rest : List Stage} {ctx : Context} {m : Message} : c.phase = .entering rest ctx m →
      c.frames.length = Broker.retryPlace + 1 → Broker.attempt? c.frames = some (n + 1) → Tried n c
  | tried : (∀ rest ctx m, c.phase = .entering rest ctx m → Broker.retryPlace + 1 < c.frames.length) →
      Broker.attempt? c.frames = some n → Tried n c
  /-- The message could not be read, so its handler has not been called. -/
  | unread {e : Error} : c.phase = .leaving (.failed e) → e.retryable = false →
      c.frames.length = Broker.retryPlace + 1 → Tried n c
  | after {o : Outcome} : c.phase = .leaving o → c.frames.length ≤ Broker.retryPlace → Tried n c

namespace Tried

/-- In the handler, or between two attempts. -/
theorem inside (h : c.Tried n) (he : ∀ rest ctx m, c.phase ≠ .entering rest ctx m) (ho : ∀ o, c.phase ≠ .leaving o) :
    Broker.attempt? c.frames = some n := by
  cases h with
  | tried _ ha => exact ha
  | before hp _ _ | trying hp _ _ => exact absurd hp (he _ _ _)
  | unread hp _ _ | after hp _ => exact absurd hp (ho _)

theorem goto_of_attempt? {phase : Phase} (ha : Broker.attempt? c.frames = some n)
    (hp : ∀ rest ctx m, phase ≠ .entering rest ctx m) : (c.goto phase).Tried n :=
  .tried (fun _ _ _ h => absurd h (hp _ _ _)) ha

theorem goto {phase : Phase} (h : c.Tried n) (he : ∀ rest ctx m, c.phase ≠ .entering rest ctx m)
    (ho : ∀ o, c.phase ≠ .leaving o) (hp : ∀ rest ctx m, phase ≠ .entering rest ctx m) : (c.goto phase).Tried n :=
  goto_of_attempt? (h.inside he ho) hp

theorem pop {f : Frame} {outer : List Frame} {o : Outcome} (h : c.Tried n)
    (he : ∀ rest ctx m, c.phase ≠ .entering rest ctx m) (hf : c.frames = f :: outer) : (c.pop outer o).Tried n := by
  have hl : c.frames.length = outer.length + 1 := congrArg List.length hf
  cases h with
  | before hp _ _ | trying hp _ _ => exact absurd hp (he _ _ _)
  | unread _ _ hl' => exact .after rfl (show outer.length ≤ _ by omega)
  | after _ hl' => exact .after rfl (show outer.length ≤ _ by omega)
  | tried _ ha =>
    by_cases hout : outer.length ≤ Broker.retryPlace
    · exact .after rfl hout
    · rw [hf, Broker.attempt?_cons (Nat.lt_of_not_le hout)] at ha
      exact .tried nofun ha

/-- How many entries inside the retry stage it makes that a call comes to its next stage. -/
def gain (c : Call) : Nat := if c.frames.length = Broker.retryPlace + 1 then 1 else 0

theorem push {f : Frame} {rest rest' : List Stage} {ctx ctx' : Context} {m m' : Message} (h : c.Tried n)
    (hp : c.phase = .entering rest ctx m)
    (hf : c.frames.length = Broker.retryPlace → Broker.attempt? (f :: c.frames) = some 1) :
    (c.push f rest' ctx' m').Tried (n + gain c) := by
  have hlength : (c.push f rest' ctx' m').frames.length = c.frames.length + 1 := rfl
  unfold gain
  cases h with
  | before _ hl hn =>
    subst hn
    rw [if_neg (by omega)]
    by_cases hlast : c.frames.length = Broker.retryPlace
    · exact .trying rfl (by omega) (hf hlast)
    · exact .before rfl (by omega) rfl
  | trying _ hl ha =>
    rw [if_pos hl]
    exact .tried (fun _ _ _ _ => by omega) ((Broker.attempt?_cons (by omega)).trans ha)
  | tried hn ha =>
    have hl := hn _ _ _ hp
    rw [if_neg (by omega)]
    exact .tried (fun _ _ _ _ => by omega) ((Broker.attempt?_cons (by omega)).trans ha)
  | unread hp' _ _ | after hp' _ =>
    rw [hp] at hp'
    cases hp'

/-- It comes to its handler, or to a stage of the user's own that answers at once. -/
theorem arrive {rest : List Stage} {ctx : Context} {m : Message} {phase : Phase} (h : c.Tried n)
    (hp : c.phase = .entering rest ctx m) (hl : Broker.retryPlace < c.frames.length)
    (hphase : ∀ rest ctx m, phase ≠ .entering rest ctx m) : (c.goto phase).Tried (n + gain c) := by
  unfold gain
  cases h with
  | before _ hl' _ => omega
  | trying _ hl ha =>
    rw [if_pos hl]
    exact goto_of_attempt? ha hphase
  | tried hn ha =>
    have hl := hn _ _ _ hp
    rw [if_neg (by omega)]
    exact goto_of_attempt? ha hphase
  | unread hp' _ _ | after hp' _ =>
    rw [hp] at hp'
    cases hp'

/-- The handler is not called, and its stages see a failure that is not worth another attempt. -/
theorem undecoded {rest : List Stage} {ctx : Context} {m : Message} {e : Error} (h : c.Tried n)
    (hp : c.phase = .entering rest ctx m) (hl : Broker.retryPlace < c.frames.length) (he : e.retryable = false) :
    (c.goto (.leaving (.failed e))).Tried n := by
  cases h with
  | trying _ hl' _ => exact .unread rfl he hl'
  | tried _ ha => exact .goto_of_attempt? ha (by simp)
  | before _ hl' _ => omega
  | unread hp' _ _ | after hp' _ =>
    rw [hp] at hp'
    cases hp'

/-- A failure that is worth another attempt comes from the handler. -/
theorem failed {e : Error} (h : c.Tried n) (hp : c.phase = .leaving (.failed e)) (hr : e.retryable = true)
    (hl : Broker.retryPlace < c.frames.length) : Broker.attempt? c.frames = some n := by
  cases h with
  | tried _ ha => exact ha
  | after _ hl' => omega
  | unread hp' hr' _ =>
    rw [hp] at hp'
    cases hp'
    rw [hr] at hr'
    cases hr'
  | before hp' _ _ | trying hp' _ _ =>
    rw [hp] at hp'
    cases hp'

/-- Another attempt begins, of the broker's own retry stage or of one behind it. -/
theorem retries {policy : RetryPolicy} {attempt : Nat} {rest : List Stage} {ctx : Context} {m : Message}
    {outer : List Frame} (ha : Broker.attempt? c.frames = some n)
    (hf : c.frames = .retry policy attempt ctx m rest :: outer) :
    Tried n { c with frames := .retry policy (attempt + 1) ctx m rest :: outer, phase := .entering rest ctx m } := by
  have hl := Broker.retryPlace_lt_of_attempt? ha
  rw [hf, List.length_cons] at hl
  by_cases hout : outer.length = Broker.retryPlace
  · rw [hf, Broker.attempt?_retry hout] at ha
    cases ha
    exact .trying rfl (congrArg (· + 1) hout) (Broker.attempt?_retry hout)
  · rw [hf, Broker.attempt?_cons (by omega)] at ha
    exact .tried (fun _ _ _ _ => by simp only [List.length_cons]; omega) ((Broker.attempt?_cons (by omega)).trans ha)

end Tried

/-- A call that does not come to a stage of its broker's own has come to the retry stage. -/
theorem Held.retryPlace_lt {rest : List Stage} {ctx : Context} {m : Message} (h : c.Held tok)
    (hp : c.phase = .entering rest ctx m) (hn : ∀ fs, ¬Broker.Ahead fs rest) : Broker.retryPlace < c.frames.length := by
  cases h with
  | inside hw _ => exact hw.retryPlace_lt
  | entering hp' ha _ =>
    rw [hp] at hp'
    cases hp'
    exact absurd ha (hn _)
  | leaving hp' _ _ =>
    rw [hp] at hp'
    cases hp'

/-- No stage around the retry stage of its broker tries again. -/
theorem Held.retryPlace_lt_of_retry {policy : RetryPolicy} {attempt : Nat} {rest : List Stage} {ctx : Context}
    {m : Message} {outer : List Frame} {o : Outcome} (h : c.Held tok) (hp : c.phase = .leaving o)
    (hf : c.frames = .retry policy attempt ctx m rest :: outer) : Broker.retryPlace < c.frames.length := by
  cases h with
  | inside hw _ => exact hw.retryPlace_lt
  | entering hp' _ _ =>
    rw [hp] at hp'
    cases hp'
  | leaving _ ha _ =>
    rw [hf] at ha
    obtain ⟨⟨he, -⟩ | ⟨_, _, he⟩, -⟩ := ha.around <;> cases he

/-- Behind three of its stages, a call comes to the retry stage of its broker. -/
theorem Held.retry_next {g : Stage} {rest : List Stage} {ctx : Context} {m : Message} (h : c.Held tok)
    (hp : c.phase = .entering (g :: rest) ctx m) (hl : c.frames.length = Broker.retryPlace) : ∃ p, g = .retry p := by
  cases h with
  | inside hw _ =>
    have := hw.retryPlace_lt
    omega
  | entering hp' ha _ =>
    rw [hp] at hp'
    cases hp'
    obtain ⟨p, more, he⟩ := ha.retry_next hl
    cases he
    exact ⟨p, rfl⟩
  | leaving hp' _ _ =>
    rw [hp] at hp'
    cases hp'

/-- What is written down from one world to the next brings the entries up to date. -/
def Advances (c : Call) (task n : Nat) (w w' : World) : Prop :=
  ∃ new, w'.history task = w.history task ++ new ∧
    c.Tried (n + new.countP (Event.isEntry (Broker.retryPlace + 1)))

theorem Moves.tries (h : c.Moves task w w' c') (hheld : c.Held tok) (hh : c.handler ≠ none) (hc : c.Tried n) :
    c'.Advances task n w w' := by
  have silent : ∀ {c' : Call} {x : World}, x.journal = w.journal → c'.Tried n → c'.Advances task n w x :=
    fun hj h => ⟨[], by rw [World.history_eq hj, List.append_nil], h⟩
  have spoken : ∀ {c' : Call} {x : World} {new : List Event}, x.history task = w.history task ++ new →
      new.countP (Event.isEntry (Broker.retryPlace + 1)) = 0 → c'.Tried n → c'.Advances task n w x :=
    fun hh hn h => ⟨_, hh, by rw [hn]; exact h⟩
  have entered : ∀ {c' : Call} {x : World} {new : List Event},
      x.history task = w.history task ++ (.entered c.frames.length :: new) →
      new.countP (Event.isEntry (Broker.retryPlace + 1)) = 0 → c'.Tried (n + Tried.gain c) → c'.Advances task n w x :=
    fun hh hn h => ⟨_, hh, by rw [List.countP_cons, hn]; simpa [Event.isEntry, Tried.gain] using h⟩
  -- Only the retry stage comes fourth.
  have other : ∀ {g : Stage} {rest : List Stage} {ctx : Context} {m : Message} {f : Frame},
      c.phase = .entering (g :: rest) ctx m → (∀ p, g ≠ .retry p) → c.frames.length = Broker.retryPlace →
      Broker.attempt? (f :: c.frames) = some 1 := fun hp hg hl => by
    obtain ⟨p, he⟩ := hheld.retry_next hp hl
    exact absurd he (hg p)
  cases h with
  | stays => exact silent rfl hc
  | delivers _ _ => exact silent World.Still.setExchange.journal hc
  -- On the way in.
  | guarded hp | unmarked hp _ | restored hp | passed hp _ =>
    exact entered (noted rfl) rfl (hc.push hp (other hp (by simp)))
  | marked hp _ => exact entered (noted rfl) rfl (hc.push hp (other hp (by simp)))
  | dispatched hp => exact entered (noted_two (w := w) rfl) rfl (hc.push hp (other hp (by simp)))
  | tried hp => exact entered (noted rfl) rfl (hc.push hp Broker.attempt?_retry)
  | unhandled _ hn => exact absurd hn hh
  | undecoded hp _ _ _ =>
    exact silent rfl (hc.undecoded hp (hheld.retryPlace_lt hp fun _ h => by cases h) rfl)
  | refused hp _ _ _ =>
    have hl := hheld.retryPlace_lt hp fun _ h => by cases h
    exact entered (noted rfl) rfl (hc.arrive hp hl (by simp))
  | called hp _ _ _ =>
    have hl := hheld.retryPlace_lt hp fun _ h => by cases h
    exact entered (noted_two rfl) rfl (hc.arrive hp hl (by simp))
  | answered hp _ =>
    have hl := hheld.retryPlace_lt hp fun _ h => by cases h
    exact entered (noted_two rfl) rfl (hc.arrive hp hl (by simp))
  -- In the handler.
  | returned hp _ _ => exact spoken (noted rfl) rfl (hc.goto (by simp [hp]) (by simp [hp]) (by simp))
  | brokeOff hp _ | slept hp | cancelled hp | awaited hp | woke hp _ | freed hp _ | delivered hp _ | undelivered hp _
  | strayed hp _ => exact silent rfl (hc.goto (by simp [hp]) (by simp [hp]) (by simp))
  | unpublished hp _ =>
    exact silent World.Still.fulfil.journal (hc.goto (by simp [hp]) (by simp [hp]) (by simp))
  | published hp hx =>
    exact silent (World.Still.fulfil.trans (.publish hx)).journal
      (hc.goto (by simp [hp]) (by simp [hp]) (by simp))
  | unwritten hp _ | unsent hp _ _ =>
    exact spoken (noted rfl) rfl (hc.goto (by simp [hp]) (by simp [hp]) (by simp))
  | sent hp _ hx =>
    exact spoken ((World.history_eq (World.Still.publish hx).journal task).trans (noted rfl)) rfl
      (hc.goto (by simp [hp]) (by simp [hp]) (by simp))
  -- Between two attempts.
  | aborted hp hf _ => exact spoken (noted_two rfl) rfl (hc.pop (by simp [hp]) hf)
  | retried hp hf _ _ => exact silent rfl (.retries (hc.inside (by simp [hp]) (by simp [hp])) hf)
  -- On the way out.
  | recovered hp hf | swallowed hp hf _ => exact spoken (noted_two rfl) rfl (hc.pop (by simp [hp]) hf)
  | exhausted hp hf _ _ => exact spoken (noted_two rfl) rfl (hc.pop (by simp [hp]) hf)
  | unwound hp hf _ | unretryable hp hf _ | propagated hp hf _ | left hp hf _ _ _ =>
    exact spoken (noted rfl) rfl (hc.pop (by simp [hp]) hf)
  | filtered hp _ hf => exact spoken (noted rfl) rfl (hc.pop (by simp [hp]) hf)
  | backsOff hp hf hr _ =>
    exact silent rfl (.goto_of_attempt? (hc.failed hp hr (hheld.retryPlace_lt_of_retry hp hf)) (by simp))

end Call

/-- The dealing of a message that a call is under way for shows how often it was tried. -/
structure Call.Tells (c : Call) (m : Message) (d : Dealing) : Prop where
  message : d.message = m
  unfinished : d.events.countP Event.isEnd = 0
  tried : c.Tried (d.entries (Broker.retryPlace + 1))

/-- A worker at work calls its own handler, and its last dealing is that with its message. -/
def Worker.Tries (w : Worker) (ds : List Dealing) : Prop :=
  ∀ m c, w.occupation = .busy m c → c.handler = some w.handler ∧ ∃ done d, ds = done ++ [d] ∧ c.Tells m d

theorem Worker.Moves.tries {t : Nat} {x x' : World} {w w' : Worker} (h : w.Moves t x x' w') (hc : w.Calm)
    (ht : w.Tries (x.dealings t)) : w'.Tries (x'.dealings t) := by
  intro m c ho'
  cases h with
  | stays => exact ht m c ho'
  | @takes sub m rest _ _ _ _ =>
    cases ho'
    have hh := World.history_note_self
      { x with exchange := x.exchange.updateSubscription w.subscription (·.take m rest) } t (.taken w.route m)
    exact ⟨rfl, _, _, World.dealings_of_taken hh, rfl, rfl, .before rfl (Nat.zero_le _) rfl⟩
  | works ho _ hm =>
    cases ho'
    obtain ⟨hhandler, done, d, hds, htells⟩ := ht _ _ ho
    obtain ⟨new, hh, htried⟩ := hm.tries (hc.held _ _ ho) (by simp [hhandler]) htells.tried
    have hinner := hm.inner hh
    refine ⟨hm.same.1.trans hhandler, done, _,
      World.dealings_append hh (fun e he => Event.taken?_of_isInner (hinner e he)) hds, htells.message,
      Dealing.unfinished_andThen htells.unfinished hinner, ?_⟩
    rw [Dealing.entries_andThen]
    exact htried
  | stops _ _ | succeeds _ _ | fails _ _ _ | breaksOff _ _ => cases ho'

namespace State
variable {s s' : State} {o : Op}

/-- The workers' dealings show how often their messages were tried. -/
def Trying (s : State) : Prop :=
  ∀ (t : Nat) (w : Worker), s.tasks[t]? = some (.worker w) → w.Tries (s.world.dealings t)

theorem Trying.step (ht : s.Trying) (hs : s.Peace) (h : s.Step o s') : s'.Trying := by
  intro t w' hw'
  rcases h.worker_from hw' with ⟨b, w, -, hw, hm⟩ | ⟨hn, hw | ⟨_, _, _, _, _, _, -, -, -, -, hidle⟩⟩
  · exact hm.tries (hs.worker hw).calm (ht t w hw)
  · rw [World.dealings_eq (h.history (List.getElem?_eq_some_iff.mp hw).1 hn)]
    exact ht t w' hw
  · intro m c ho
    rw [hidle] at ho
    cases ho

end State
end Relay
