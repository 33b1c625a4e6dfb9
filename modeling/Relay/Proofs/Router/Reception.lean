import Relay.Proofs.Exchange.Fanout
import Relay.Proofs.Router.Delivery

/-! Reception. What is published while a router runs comes to the workers for its topic, to each of them as
    a whole and in order, and to no other worker. -/

namespace Relay

/-- Whether a route is one for a topic. -/
def Route.isOn (topic : String) (r : Route) : Bool := r.topic == topic

/-- Whether a task is a worker that gets the messages on a topic. -/
def Task.worksOn (topic : String) : Task → Bool
  | .worker w => w.topic == topic
  | _ => false

/-- One list lies in another from place `n` on, and nothing else there counts. -/
theorem countP_window {α β : Type} {p : α → Bool} {q : β → Bool} {as : List α} {bs : List β} {n : Nat}
    (hin : ∀ i b, bs[i]? = some b → ∃ a, as[n + i]? = some a ∧ p a = q b)
    (hout : ∀ u a, as[u]? = some a → p a = true → ∃ i, u = n + i ∧ i < bs.length) :
    as.countP p = bs.countP q := by
  induction as generalizing n bs with
  | nil =>
    cases bs with
    | nil => rfl
    | cons b bs =>
      obtain ⟨a, ha, -⟩ := hin 0 b rfl
      cases ha
  | cons a as ih =>
    cases n with
    | succ n =>
      -- The first is before the place, so it does not count.
      have ha : p a = false := Bool.eq_false_iff.mpr fun ha => by
        obtain ⟨i, hi, -⟩ := hout 0 a rfl ha
        omega
      rw [List.countP_cons, ha, if_neg Bool.false_ne_true, Nat.add_zero]
      refine ih (n := n) (fun i b hb => ?_) fun u a' hu ha' => ?_
      · rw [← List.getElem?_cons_succ (a := a), Nat.add_right_comm]
        exact hin i b hb
      · obtain ⟨i, hi, hlt⟩ := hout (u + 1) a' hu ha'
        exact ⟨i, by omega, hlt⟩
    | zero =>
      cases bs with
      | nil =>
        refine List.countP_eq_zero.mpr fun a' ha' hp => ?_
        obtain ⟨u, hu⟩ := List.mem_iff_getElem?.mp ha'
        obtain ⟨i, -, hi⟩ := hout u a' hu hp
        cases hi
      | cons b bs =>
        obtain ⟨a', ha', he⟩ := hin 0 b rfl
        cases ha'
        rw [List.countP_cons, List.countP_cons, he]
        refine congrArg (· + _) (ih (n := 0) (fun i b hb => ?_) fun u a' hu ha' => ?_)
        · have := hin (i + 1) b hb
          rwa [show 0 + (i + 1) = (0 + i) + 1 from rfl, List.getElem?_cons_succ] at this
        · obtain ⟨i, hi, hlt⟩ := hout (u + 1) a' hu ha'
          rw [Nat.zero_add] at hi
          subst hi
          exact ⟨u, (Nat.zero_add u).symm, Nat.lt_of_succ_lt_succ hlt⟩

namespace State
variable {s s' : State} {o : Op} {t base p : Nat} {run : Context}

/-! ### Workers and routes -/

/-- There are as many workers for a topic as routes. -/
theorem Serving.workers_eq_routes (hs : s.Serving t base run) (topic : String) :
    s.tasks.countP (Task.worksOn topic) = s.router.routes.countP (Route.isOn topic) := by
  refine countP_window (n := base) (fun i route hr => ?_) fun u k hk hw => ?_
  · obtain ⟨w, hw, rfl⟩ := hs.manned i (List.getElem?_eq_some_iff.mp hr).1
    obtain ⟨-, -, route', hserves⟩ := hs.serves hw
    rw [hserves.listed] at hr
    cases hr
    exact ⟨_, hw, by rw [Task.worksOn, hserves.topic]; rfl⟩
  · cases k with
    | worker w =>
      obtain ⟨hu, -, route, hserves⟩ := hs.serves hk
      exact ⟨w.route, hu, (List.getElem?_eq_some_iff.mp hserves.listed).1⟩
    | run _ | close _ | awaitStart _ | call _ | errand _ _ _ | alarm _ _ _ => cases hw

/-- A worker that is there now was there before, for the same route and with the same subscription. -/
theorem Serving.worker_before (hs : s.Serving t base run) (h : s.Step o s') {u : Nat} {w' : Worker}
    (hw' : s'.tasks[u]? = some (.worker w')) : ∃ w, s.tasks[u]? = some (.worker w) ∧ w.Goes w' := by
  rcases h.worker_from hw' with ⟨b, w, -, hw, hm⟩ | ⟨-, hw | ⟨_, _, _, _, _, _, hv, hm, hnew, -, -⟩⟩
  · exact ⟨w, hw, hm.goes⟩
  · exact ⟨w', hw, .refl _⟩
  · -- Only a supervisor that has subscribed all routes begins workers, and there is none any more.
    cases hm with
    | serves he _ =>
      subst he
      exact absurd hv hs.not_subscribing
    | stays | rejected _ _ | begins _ _ | skips _ _ | subscribes _ _ _ | declined _ _ _ _ | breaksOff _ _ _
    | joins _ _ _ _ | drains _ _ | awaits _ _ _ | finishes _ _ => cases hnew

theorem Serving.routes_eq (hs : s.Serving t base run) (h : s.Step o s') : s'.router.routes = s.router.routes := by
  rcases h.keeps_or with ⟨hk, -⟩ | ⟨u, v, v', x, r, new, active, -, hm, rfl⟩
  · exact (hk.frozen hs.started).1
  · exact (Task.Moves.run hm).router.2

/-! ### Messages on their way -/

/-- Publication `p` goes to the workers for its topic. -/
def Sends (s : State) (p : Nat) (q : Publication) : Prop :=
  ∀ {u : Nat} {w : Worker}, s.tasks[u]? = some (.worker w) → w.topic = q.topic →
    s.world.exchange.Expects p w.subscription

theorem Sends.start {q : Publication} (hs : s.Serving t base run) (hq : s.world.exchange.publications[p]? = some q)
    (hf : q.progress = .fresh) : s.Sends p q := fun hw ht => by
  obtain ⟨sub, hsub, htopic, -⟩ := hs.reads hw
  exact ⟨q, sub, hq, hsub, htopic.trans ht, .inl hf⟩

theorem Sends.step {q : Publication} (hp : s.Sends p q) (hs : s.Serving t base run) (hx : s.world.exchange.Faithful)
    (h : s.Step o s') : s'.Sends p q := fun hw' ht => by
  obtain ⟨w, hw, hg⟩ := hs.worker_before h hw'
  rw [hg.subscription]
  have hexpects := hp hw (hg.topic ▸ ht)
  have hkept : s'.world.exchange.Faithful ∧ s'.world.exchange.Expects p w.subscription :=
    h.exchange (P := fun e => e.Faithful ∧ e.Expects p w.subscription)
      (fun o hx => ⟨hx.1.step o, hx.2.step hx.1.listed o⟩) ⟨hx, hexpects⟩
  exact hkept.2

theorem IsNew.faithful {start : State} (hn : start.IsNew) : start.world.exchange.Faithful := by
  rw [hn.exchange]
  exact .new _

/-- Whether a task is a worker that a publication has come to. -/
def gets (s : State) (p : Nat) : Task → Bool
  | .worker w => s.world.exchange.subscriptions[w.subscription]?.any fun sub => !(sub.acceptedOf p).isEmpty
  | _ => false

/-- Reception. What is on its way when a router runs has come, once it has been sent without an error and
    if nothing was cancelled, closed or broken off, to every worker for its topic, as a whole and in order,
    and to no other worker; and unless there is nothing to be sent these are as many workers as the topic
    has routes. -/
theorem reception {start : State} (hn : start.IsNew) (h : Reachable start s) (hl : s.router.lifecycle = .running)
    {q : Publication} (hq : s.world.exchange.publications[p]? = some q) (hf : q.progress = .fresh)
    (h' : Runs (fun _ => True) s s') (hu : s'.Undisturbed) (hr : s'.world.exchange.returned? p = some none) :
    (∀ (u : Nat) (w : Worker) (sub : Subscription), s'.tasks[u]? = some (.worker w) →
      s'.world.exchange.subscriptions[w.subscription]? = some sub →
      sub.acceptedOf p = if w.topic = q.topic then q.messages else []) ∧
    (q.batch ≠ [] → s'.tasks.countP (s'.gets p) = s.router.routes.countP (Route.isOn q.topic)) := by
  have hinv : s.Course ∧ s.Delivers ∧ s.world.exchange.Faithful :=
    (Runs.of_reachable h).keeps (P := fun s => s.Course ∧ s.Delivers ∧ s.world.exchange.Faithful)
      ⟨hn.course, hn.delivers, hn.faithful⟩ fun _ hs hi =>
        ⟨hi.1.step hs, hi.2.1.step hi.1 hs, hs.exchange (P := Exchange.Faithful) (fun o h => h.step o) hi.2.2⟩
  obtain ⟨hc, hd, hx⟩ := hinv
  obtain ⟨t₀, base, run, hserving⟩ := hc.serving_of_running hl
  have hinv' : s'.Serving t₀ base run ∧ s'.Delivers ∧ s'.world.exchange.Faithful ∧ s'.Sends p q ∧
      s'.router.routes = s.router.routes :=
    h'.keeps (P := fun s' => s'.Serving t₀ base run ∧ s'.Delivers ∧ s'.world.exchange.Faithful ∧ s'.Sends p q ∧
        s'.router.routes = s.router.routes) ⟨hserving, hd, hx, Sends.start hserving hq hf, rfl⟩
      fun _ hs ⟨hserving, hd, hx, hp, hroutes⟩ => ⟨hserving.step hs, hd.step (.serving hserving) hs,
        hs.exchange (P := Exchange.Faithful) (fun o h => h.step o) hx, Sends.step hp hserving hx hs,
        (hserving.routes_eq hs).trans hroutes⟩
  obtain ⟨hserving', hd', hx', hp', hroutes⟩ := hinv'
  obtain ⟨q', hq', htopic, hbatch⟩ : ∃ q', s'.world.exchange.publications[p]? = some q' ∧ q'.topic = q.topic ∧
      q'.batch = q.batch :=
    (h'.keeps (P := fun s' => s.world.exchange.Evolves s'.world.exchange) (.refl _) fun _ hs he =>
      he.trans hs.evolves).publication hq
  have hgot : ∀ (u : Nat) (w : Worker) (sub : Subscription), s'.tasks[u]? = some (.worker w) →
      s'.world.exchange.subscriptions[w.subscription]? = some sub →
      sub.acceptedOf p = if w.topic = q.topic then q.messages else [] := by
    intro u w sub hw hs
    obtain ⟨-, hdropped⟩ := hd'.attached (.serving hserving') hu hw hs
    obtain ⟨hsame, hother⟩ := hx'.received hr hq' hs hdropped
    obtain ⟨sub', hs', hon, -⟩ := hserving'.reads hw
    rw [hs] at hs'
    cases hs'
    rw [htopic, hon] at hsame hother
    by_cases ht : w.topic = q.topic
    · rw [if_pos ht, hsame ht hu.opened (hp' hw ht), Publication.messages, Publication.messages, htopic, hbatch]
    · rw [if_neg ht, hother ht]
  refine ⟨hgot, fun hne => ?_⟩
  rw [← hroutes, ← hserving'.workers_eq_routes]
  refine List.countP_congr fun k hk => ?_
  obtain ⟨u, hu⟩ := List.mem_iff_getElem?.mp hk
  cases k with
  | worker w =>
    obtain ⟨sub, hs, -⟩ := hserving'.reads hu
    rw [gets, hs, Option.any_some, hgot u w sub hu hs, Task.worksOn]
    by_cases ht : w.topic = q.topic <;> simp [ht, Publication.messages, hne]
  | run _ | close _ | awaitStart _ | call _ | errand _ _ _ | alarm _ _ _ => exact Iff.rfl

end State
end Relay
