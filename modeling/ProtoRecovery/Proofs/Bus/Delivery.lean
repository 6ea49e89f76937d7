import ProtoRecovery.Bus.Script
import ProtoRecovery.Proofs.Bus.History

/-! # Delivery: a publication reaches those who are subscribed when it is made, each of them once

What has been delivered and what is still on the agenda are taken together. An act that publishes
puts its deliveries there, and no other act and no delivery changes which they are. -/
namespace ProtoRecovery.Bus
variable {κ τ η ν : Type}

def Task.delivery? : Task κ τ η ν → Option (Delivery η ν)
  | act _ => none
  | deliver d => some d

namespace Session

/-- A session in which some acts are to be done, one after the other. -/
def opening (acts : List (Act κ τ η ν)) : Session κ τ η ν := { agenda := acts.map .act }

/-- All deliveries of a session, those to come included, the earliest first. -/
def deliveries (s : Session κ τ η ν) : List (Delivery η ν) :=
  s.delivered.reverse ++ s.agenda.filterMap Task.delivery?

/-- What has been delivered of a publication, in order. -/
def received (s : Session κ τ η ν) (publication : Nat) : List (Delivery η ν) :=
  s.delivered.reverse.filter fun d => d.publication = publication

/-- What is still to be delivered of a publication, in order. -/
def awaited (s : Session κ τ η ν) (publication : Nat) : List (Delivery η ν) :=
  (s.agenda.filterMap Task.delivery?).filter fun d => d.publication = publication

/-- The act that the next step does, if it does one. -/
def nextAct (s : Session κ τ η ν) : List (Act κ τ η ν) :=
  match s.agenda with
  | .act act :: _ => [act]
  | _ => []

variable [DecidableEq κ] [DecidableEq τ] (c : Conduct κ τ η ν)

/-- The acts that are done in so many steps, those of handlers included, in order. -/
def performed : (steps : Nat) → Session κ τ η ν → List (Act κ τ η ν)
  | 0, _ => []
  | steps + 1, s => s.nextAct ++ performed steps (step c s)

variable {c} in
theorem settle_of_rest {s : Session κ τ η ν} (h : s.agenda = []) (steps : Nat) : settle c steps s = s := by
  cases steps with
  | zero => rfl
  | succ steps => rw [settle, h, List.isEmpty_nil, if_pos rfl]

theorem settle_succ (steps : Nat) (s : Session κ τ η ν) : settle c (steps + 1) s = settle c steps (step c s) := by
  cases hagenda : s.agenda with
  | nil =>
    have hstep : step c s = s := by rw [step, hagenda]
    rw [hstep, settle_of_rest hagenda, settle_of_rest hagenda]
  | cons task agenda => simp [settle, hagenda]

theorem settle_add (first second : Nat) (s : Session κ τ η ν) :
    settle c (first + second) s = settle c second (settle c first s) := by
  induction first generalizing s with
  | zero => rw [Nat.zero_add, settle]
  | succ first ih => rw [Nat.succ_add, settle_succ, settle_succ, ih]

end Session

variable [DecidableEq κ] [DecidableEq τ] (c : Conduct κ τ η ν)

/-- Those who are subscribed to the topic of an event after some acts. -/
def addressees (history : List (Act κ τ η ν)) (event : ν) : List (Subscription η) :=
  (c.topic event).elim [] (standing history)

/-- What a publication after some acts has to deliver. -/
def dispatched (history : List (Act κ τ η ν)) (event : ν) : List (Delivery η ν) :=
  (addressees c history event).map fun x => ⟨history.countP Act.isPublication, x, event⟩

theorem sorted_dispatched (history : List (Act κ τ η ν)) (event : ν) :
    (dispatched c history event).Pairwise fun d e => d.subscription.serial < e.subscription.serial := by
  rw [dispatched, addressees, List.pairwise_map]
  cases c.topic event with
  | none => exact .nil
  | some topic => exact sorted_standing history topic

/-- A session is in the state that some acts lead to. -/
structure Follows (history : List (Act κ τ η ν)) (s : Session κ τ η ν) : Prop where
  bus : ∃ b, s.bus = some b ∧ Records history b
  tokens : ∀ label, s.tokens.lookup label = holder history label
  publications : s.publications = history.countP Act.isPublication
  numbered : ∀ d ∈ s.deliveries, d.publication < s.publications
  sent : ∀ before event after, history = before ++ .publish event :: after →
    (s.deliveries.filter fun d => d.publication = before.countP Act.isPublication) = dispatched c before event

namespace Follows
variable {c} {history : List (Act κ τ η ν)} {s : Session κ τ η ν}

theorem opening (acts : List (Act κ τ η ν)) : Follows c [] (Session.opening acts) where
  bus := ⟨{}, rfl, .empty⟩
  tokens _ := rfl
  publications := rfl
  numbered := by simp [Session.deliveries, Session.opening, Task.delivery?]
  sent before event after h := by simp at h

omit [DecidableEq κ] [DecidableEq τ] in
/-- A publication in a history with one more act: an earlier one, or that act. -/
theorem split_concat {act : Act κ τ η ν} {before after : List (Act κ τ η ν)} {event : ν}
    (h : history ++ [act] = before ++ .publish event :: after) :
    (∃ rest, history = before ++ .publish event :: rest) ∨ history = before ∧ act = .publish event := by
  rcases List.eq_nil_or_concat' after with rfl | ⟨rest, last, rfl⟩
  · obtain ⟨rfl, hact⟩ := List.append_inj' h rfl
    exact .inr ⟨rfl, List.singleton_inj.1 hact⟩
  · rw [← List.cons_append, ← List.append_assoc] at h
    exact .inl ⟨rest, (List.append_inj' h rfl).1⟩

/-- An act that publishes nothing leaves the deliveries as they are. -/
theorem silent (h : Follows c history s) {act : Act κ τ η ν} (hact : act.isPublication = false) {s' : Session κ τ η ν}
    (hbus : ∃ b, s'.bus = some b ∧ Records (history ++ [act]) b)
    (htokens : ∀ label, s'.tokens.lookup label = holder (history ++ [act]) label)
    (hpublications : s'.publications = s.publications) (hdeliveries : s'.deliveries = s.deliveries) :
    Follows c (history ++ [act]) s' where
  bus := hbus
  tokens := htokens
  publications := by simp [hpublications, h.publications, hact]
  numbered := by
    rw [hdeliveries, hpublications]
    exact h.numbered
  sent before event after hsplit := by
    rw [hdeliveries]
    rcases split_concat hsplit with ⟨rest, hrest⟩ | ⟨-, rfl⟩
    · exact h.sent before event rest hrest
    · cases hact

theorem audience_eq (h : Follows c history s) (event : ν) : s.audience c event = addressees c history event := by
  obtain ⟨b, hb, hrecords⟩ := h.bus
  rw [Session.audience, hb, addressees]
  cases c.topic event with
  | none => rfl
  | some topic => exact hrecords.subscriptions topic

theorem publish (h : Follows c history s) (event : ν) :
    Follows c (history ++ [.publish event]) (s.perform c (.publish event)) := by
  obtain ⟨b, hb, hrecords⟩ := h.bus
  have hnumber : ∀ d ∈ dispatched c history event, d.publication = s.publications := by
    intro d hd
    obtain ⟨x, -, rfl⟩ := List.mem_map.1 hd
    exact h.publications.symm
  have hdeliveries : (s.perform c (.publish event)).deliveries =
      s.delivered.reverse ++ (dispatched c history event ++ s.agenda.filterMap Task.delivery?) := by
    simp [Session.perform, Session.deliveries, h.audience_eq, dispatched, h.publications, Task.delivery?,
      List.filterMap_map, Function.comp_def]
  have hpublications : (s.perform c (.publish event)).publications = s.publications + 1 := rfl
  constructor
  · exact ⟨b, hb, hrecords.keep rfl fun topic => standing_concat_publish history topic event⟩
  · intro label
    rw [holder_concat_other history rfl]
    exact h.tokens label
  · rw [hpublications, h.publications]
    simp [Act.isPublication]
  · intro d hd
    rw [hpublications]
    rw [hdeliveries, List.mem_append, List.mem_append, or_left_comm] at hd
    rcases hd with hd | hd
    · exact hnumber d hd ▸ Nat.lt_succ_self _
    · exact Nat.lt_succ_of_lt (h.numbered d (List.mem_append.2 hd))
  · intro before event' after hsplit
    rw [hdeliveries, List.filter_append, List.filter_append]
    rcases split_concat hsplit with ⟨rest, hrest⟩ | ⟨rfl, hevent⟩
    · -- An earlier publication has another number.
      have hlt : before.countP Act.isPublication < s.publications := by
        rw [h.publications, hrest, List.countP_append, List.countP_cons_of_pos rfl]
        omega
      have hnone : (dispatched c history event).filter (fun d => d.publication = before.countP Act.isPublication) = [] := by
        apply List.filter_eq_nil_iff.2
        intro d hd
        have := hnumber d hd
        simp only [decide_eq_true_eq]
        omega
      rw [hnone, List.nil_append, ← List.filter_append]
      exact h.sent before event' rest hrest
    · cases hevent
      rw [← h.publications]
      have hold : ∀ ds : List (Delivery η ν), (∀ d ∈ ds, d.publication < s.publications) →
          ds.filter (fun d => d.publication = s.publications) = [] := by
        intro ds hds
        apply List.filter_eq_nil_iff.2
        intro d hd
        simpa using Nat.ne_of_lt (hds d hd)
      have hall : (dispatched c history event).filter (fun d => d.publication = s.publications) =
          dispatched c history event := List.filter_eq_self.2 fun d hd => decide_eq_true (hnumber d hd)
      rw [hall, hold _ fun d hd => h.numbered d (List.mem_append_left _ hd),
        hold _ fun d hd => h.numbered d (List.mem_append_right _ hd), List.nil_append, List.append_nil]

theorem subscribe (h : Follows c history s) (label : κ) (topic : τ) (handler : η) :
    Follows c (history ++ [.subscribe label topic handler]) (s.perform c (.subscribe label topic handler)) := by
  obtain ⟨b, hb, hrecords⟩ := h.bus
  have hperform : s.perform c (.subscribe label topic handler) =
      { s with bus := some (b.subscribe topic handler).1, tokens := (label, ⟨topic, b.next⟩) :: s.tokens } := by
    simp only [Session.perform, hb]
    rfl
  rw [hperform]
  refine h.silent rfl ⟨_, rfl, hrecords.subscribe label topic handler⟩ (fun other => ?_) rfl rfl
  rw [holder_concat_subscribe, ← hrecords.next, List.lookup_cons]
  by_cases hother : other = label
  · simp [hother]
  · have hne : (other == label) = false := beq_eq_false_iff_ne.2 hother
    rw [hne, if_neg hother]
    exact h.tokens other

theorem unsubscribe (h : Follows c history s) (label : κ) :
    Follows c (history ++ [.unsubscribe label]) (s.perform c (.unsubscribe label)) := by
  obtain ⟨b, hb, hrecords⟩ := h.bus
  have htokens : ∀ other, s.tokens.lookup other = holder (history ++ [.unsubscribe label]) other := by
    intro other
    rw [holder_concat_other history rfl]
    exact h.tokens other
  cases hlabel : holder history label with
  | some token =>
    have hperform : s.perform c (.unsubscribe label) = { s with bus := some (b.unsubscribe token) } := by
      simp only [Session.perform, hb, h.tokens, hlabel]
    rw [hperform]
    exact h.silent rfl ⟨_, rfl, hrecords.unsubscribe hlabel⟩ htokens rfl rfl
  | none =>
    have hperform : s.perform c (.unsubscribe label) = s := by
      simp only [Session.perform, hb, h.tokens, hlabel]
    have hstanding : ∀ topic, standing (history ++ [.unsubscribe label]) topic = standing history topic := by
      intro topic
      simp [standing_concat_unsubscribe, hlabel]
    rw [hperform]
    exact h.silent rfl ⟨b, hb, hrecords.keep rfl hstanding⟩ htokens rfl rfl

theorem perform (h : Follows c history s) (act : Act κ τ η ν) : Follows c (history ++ [act]) (s.perform c act) := by
  cases act with
  | subscribe label topic handler => exact h.subscribe label topic handler
  | unsubscribe label => exact h.unsubscribe label
  | publish event => exact h.publish event

/-- With another agenda, as long as the deliveries are the same. -/
theorem congr (h : Follows c history s) {s' : Session κ τ η ν} (hbus : s'.bus = s.bus) (htokens : s'.tokens = s.tokens)
    (hpublications : s'.publications = s.publications) (hdeliveries : s'.deliveries = s.deliveries) :
    Follows c history s' := by
  constructor
  · rw [hbus]
    exact h.bus
  · rw [htokens]
    exact h.tokens
  · rw [hpublications]
    exact h.publications
  · rw [hdeliveries, hpublications]
    exact h.numbered
  · rw [hdeliveries]
    exact h.sent

theorem step (h : Follows c history s) : Follows c (history ++ s.nextAct) (s.step c) := by
  cases hagenda : s.agenda with
  | nil =>
    rw [Session.nextAct, Session.step, hagenda, List.append_nil]
    exact h
  | cons task agenda =>
    cases task with
    | act act =>
      have hrest : Follows c history { s with agenda } := by
        refine h.congr rfl rfl rfl ?_
        rw [Session.deliveries, Session.deliveries, hagenda, List.filterMap_cons_none rfl]
      rw [Session.nextAct, Session.step, hagenda]
      exact hrest.perform act
    | deliver d =>
      rw [Session.nextAct, Session.step, hagenda, List.append_nil]
      refine h.congr rfl rfl rfl ?_
      simp [Session.receive, Session.deliveries, hagenda, Task.delivery?, List.filterMap_map, Function.comp_def]

/-- A run does to a session what its acts tell. -/
theorem settle (h : Follows c history s) (steps : Nat) :
    Follows c (history ++ s.performed c steps) (s.settle c steps) := by
  induction steps generalizing history s with
  | zero => simpa [Session.performed, Session.settle] using h
  | succ steps ih =>
    rw [Session.performed, Session.settle_succ, ← List.append_assoc]
    exact ih h.step

end Follows

/-! ### Coming to rest -/

/-- However the agenda goes on, it is reached once some tasks in front of it are done. -/
def Drains (tasks : List (Task κ τ η ν)) : Prop :=
  ∀ (s : Session κ τ η ν) (rest : List (Task κ τ η ν)), s.agenda = tasks ++ rest →
    ∃ steps, (s.settle c steps).agenda = rest

namespace Drains
variable {c}

theorem append {a b : List (Task κ τ η ν)} (ha : Drains c a) (hb : Drains c b) : Drains c (a ++ b) := by
  intro s rest h
  rw [List.append_assoc] at h
  obtain ⟨first, hfirst⟩ := ha s _ h
  obtain ⟨second, hsecond⟩ := hb _ rest hfirst
  exact ⟨first + second, by rw [Session.settle_add, hsecond]⟩

theorem of_forall {tasks : List (Task κ τ η ν)} (h : ∀ task ∈ tasks, Drains c [task]) : Drains c tasks := by
  induction tasks with
  | nil => exact fun s rest h => ⟨0, h⟩
  | cons task tasks ih =>
    obtain ⟨htask, htasks⟩ := List.forall_mem_cons.1 h
    exact htask.append (ih htasks)

/-- A task is done when all that it puts on the agenda is. -/
theorem of_step {task : Task κ τ η ν} (h : ∀ (s : Session κ τ η ν) (rest : List (Task κ τ η ν)), s.agenda = task :: rest →
    ∃ more, (s.step c).agenda = more ++ rest ∧ ∀ t ∈ more, Drains c [t]) : Drains c [task] := by
  intro s rest hagenda
  obtain ⟨more, hmore, hdrains⟩ := h s rest hagenda
  obtain ⟨steps, hsteps⟩ := of_forall hdrains (s.step c) rest hmore
  exact ⟨steps + 1, by rw [Session.settle_succ, hsteps]⟩

theorem subscribe (label : κ) (topic : τ) (handler : η) : Drains c [.act (.subscribe label topic handler)] := by
  apply of_step
  intro s rest hagenda
  refine ⟨[], ?_, by simp⟩
  rw [Session.step, hagenda]
  simp only [Session.perform]
  cases s.bus <;> rfl

theorem unsubscribe (label : κ) : Drains c [.act (.unsubscribe label)] := by
  apply of_step
  intro s rest hagenda
  refine ⟨[], ?_, by simp⟩
  rw [Session.step, hagenda]
  simp only [Session.perform]
  cases s.bus <;> cases s.tokens.lookup label <;> rfl

/-- When what handlers publish is always of a lower rank, an event and all that follows from it comes to an end. -/
theorem publish {rank : ν → Nat} (hrank : ∀ earlier d event, .publish event ∈ c.react earlier d → rank event < rank d.event)
    (event : ν) : Drains c [.act (.publish event)] := by
  induction hn : rank event using Nat.strongRecOn generalizing event with
  | ind n ih =>
    have hdeliver : ∀ d : Delivery η ν, d.event = event → Drains c [.deliver d] := by
      intro d hd
      apply of_step
      intro s rest hagenda
      refine ⟨(c.react s.delivered d).map .act, by rw [Session.step, hagenda]; rfl, ?_⟩
      intro task htask
      obtain ⟨act, hact, rfl⟩ := List.mem_map.1 htask
      cases act with
      | subscribe label topic handler => exact subscribe label topic handler
      | unsubscribe label => exact unsubscribe label
      | publish other =>
        have hlt := hrank _ _ _ hact
        rw [hd, hn] at hlt
        exact ih _ hlt other rfl
    apply of_step
    intro s rest hagenda
    refine ⟨_, by rw [Session.step, hagenda]; rfl, ?_⟩
    intro task htask
    obtain ⟨x, -, rfl⟩ := List.mem_map.1 htask
    exact hdeliver _ rfl

end Drains

/-! ### All of it together -/

omit [DecidableEq κ] [DecidableEq τ] in
private theorem exists_publication {history : List (Act κ τ η ν)} {number : Nat}
    (h : number < history.countP Act.isPublication) :
    ∃ before event after, history = before ++ .publish event :: after ∧ before.countP Act.isPublication = number := by
  induction history generalizing number with
  | nil => exact absurd h (Nat.not_lt_zero number)
  | cons act history ih =>
    have hcons : ∀ n, n < history.countP Act.isPublication → n + (if act.isPublication then 1 else 0) = number →
        ∃ before event after, act :: history = before ++ .publish event :: after ∧
          before.countP Act.isPublication = number := by
      intro n hn hnumber
      obtain ⟨before, event, after, rfl, hcount⟩ := ih hn
      exact ⟨act :: before, event, after, rfl, by rw [List.countP_cons, hcount, hnumber]⟩
    cases act with
    | subscribe label topic handler => exact hcons number h rfl
    | unsubscribe label => exact hcons number h rfl
    | publish event =>
      cases number with
      | zero => exact ⟨[], event, history, rfl, rfl⟩
      | succ n =>
        rw [List.countP_cons_of_pos rfl] at h
        exact hcons n (Nat.lt_of_succ_lt_succ h) rfl

/-- A subscription that was ended does not stand again. -/
theorem ended_stays {before after : List (Act κ τ η ν)} {label : κ} {token : Token τ}
    (hlabel : holder before label = some token) {topic : τ} {x : Subscription η}
    (hx : x ∈ standing (before ++ .unsubscribe label :: after) topic) :
    token ≠ ⟨topic, x.serial⟩ := by
  rw [List.append_cons] at hx
  rcases mem_standing_append _ _ hx with hx | hx
  · rw [standing_concat_unsubscribe, hlabel] at hx
    simpa using (List.mem_filter.1 hx).2
  · rintro rfl
    have hlt : x.serial < before.countP Act.isSubscription := serial_lt_of_holder hlabel
    rw [List.countP_append] at hx
    omega

/-- Whatever is done on a bus, also by the handlers that it calls while it is at work: a publication is delivered
to those who are subscribed to its topic when it is made, once to each, in the order of their subscriptions, and
nothing else is delivered. A token takes away its own subscription, and does nothing more when it is used again.
No topic is left with an empty list. Where handlers publish only what is of a lower rank than what has reached
them, all that is to be done comes to an end. -/
theorem publications_reach_standing (acts : List (Act κ τ η ν)) (steps : Nat) :
    let s := (Session.opening acts).settle c steps
    let history := (Session.opening acts).performed c steps
    (∀ before event after, history = before ++ .publish event :: after →
      (dispatched c before event).Pairwise (fun d e => d.subscription.serial < e.subscription.serial) ∧
      s.received (before.countP Act.isPublication) ++ s.awaited (before.countP Act.isPublication) =
        dispatched c before event ∧
      (s.agenda = [] → s.received (before.countP Act.isPublication) = dispatched c before event)) ∧
    (∀ d ∈ s.delivered, ∃ before event after, history = before ++ .publish event :: after ∧
      d ∈ dispatched c before event) ∧
    (∃ bus, s.bus = some bus ∧ bus.Tidy ∧ (∀ topic, bus.subscriptions topic = standing history topic) ∧
      (∀ token topic, (bus.unsubscribe token).subscriptions topic =
        (bus.subscriptions topic).filter fun x => token ≠ ⟨topic, x.serial⟩) ∧
      ∀ before label after token, history = before ++ .unsubscribe label :: after → holder before label = some token →
        ∀ topic, (bus.unsubscribe token).subscriptions topic = bus.subscriptions topic) ∧
    ((∃ rank : ν → Nat, ∀ earlier d event, .publish event ∈ c.react earlier d → rank event < rank d.event) →
      ∃ enough, ((Session.opening acts).settle c enough).agenda = []) := by
  intro s history
  have hfollows : Follows c history s := (Follows.opening acts).settle steps
  obtain ⟨bus, hbus, hrecords⟩ := hfollows.bus
  have hsent : ∀ before event after, history = before ++ .publish event :: after →
      s.received (before.countP Act.isPublication) ++ s.awaited (before.countP Act.isPublication) =
        dispatched c before event := by
    intro before event after hsplit
    rw [Session.received, Session.awaited, ← List.filter_append]
    exact hfollows.sent before event after hsplit
  have hunsubscribe := fun token => subscriptions_unsubscribe token (hrecords.sorted token.topic)
  refine ⟨fun before event after hsplit => ⟨sorted_dispatched c before event, hsent before event after hsplit, ?_⟩, ?_,
    ⟨bus, hbus, hrecords.tidy, hrecords.subscriptions, hunsubscribe, ?_⟩, ?_⟩
  · intro hrest
    rw [← hsent before event after hsplit, Session.awaited, hrest]
    exact (List.append_nil _).symm
  · intro d hd
    have hmem : d ∈ s.deliveries := List.mem_append_left _ (List.mem_reverse.2 hd)
    have hnumber := hfollows.numbered d hmem
    rw [hfollows.publications] at hnumber
    obtain ⟨before, event, after, hsplit, hcount⟩ := exists_publication hnumber
    refine ⟨before, event, after, hsplit, ?_⟩
    rw [← hfollows.sent before event after hsplit]
    exact List.mem_filter.2 ⟨hmem, decide_eq_true hcount.symm⟩
  · intro before label after token hsplit hlabel topic
    rw [hunsubscribe, List.filter_eq_self]
    intro x hx
    rw [hrecords.subscriptions, hsplit] at hx
    exact decide_eq_true (ended_stays hlabel hx)
  · rintro ⟨rank, hrank⟩
    have hdrains : Drains c (acts.map .act) := by
      apply Drains.of_forall
      intro task htask
      obtain ⟨act, -, rfl⟩ := List.mem_map.1 htask
      cases act with
      | subscribe label topic handler => exact .subscribe label topic handler
      | unsubscribe label => exact .unsubscribe label
      | publish event => exact .publish hrank event
    exact hdrains (Session.opening acts) [] (List.append_nil _).symm

/-- The first handler ends the second subscription and publishes a text, whose handler subscribes a third to numbers. -/
private def relay : List ScriptAct :=
  [.subscribe (utf8 "a") .number ⟨utf8 "a", { leave := [utf8 "b"], say := some (.text []) }⟩,
    .subscribe (utf8 "b") .number ⟨utf8 "b", {}⟩,
    .subscribe (utf8 "c") .text ⟨utf8 "c", { join := [(utf8 "d", .number)] }⟩,
    .publish (.number 1), .unsubscribe (utf8 "a"), .unsubscribe (utf8 "a"), .publish (.number 2)]

private def relayed : Session Bytes Kind Handler Value := (Session.opening relay).settle conduct 30

private def beforeSecond : List ScriptAct :=
  relay.take 4 ++ [.unsubscribe (utf8 "b"), .publish (.text []), .subscribe (utf8 "d") .number ⟨utf8 "d", {}⟩] ++
    [.unsubscribe (utf8 "a"), .unsubscribe (utf8 "a")]

theorem publications_reach_standing_relay :
    (Session.opening relay).performed conduct 30 = beforeSecond ++ [.publish (.number 2)] ∧ relayed.agenda = [] ∧
    (relayed.received 0).map (·.subscription.handler.label) = [utf8 "a", utf8 "b"] ∧
    (relayed.received 2).map (·.subscription.handler.label) = [utf8 "d"] := by
  have hhistory : (Session.opening relay).performed conduct 30 = beforeSecond ++ [.publish (.number 2)] := by
    decide +kernel
  have hrest : relayed.agenda = [] := by decide +kernel
  obtain ⟨hsent, -⟩ := publications_reach_standing conduct relay 30
  have hfirst : relayed.received 0 = dispatched conduct (relay.take 3) (.number 1) :=
    (hsent (relay.take 3) (.number 1) (beforeSecond.drop 4 ++ [.publish (.number 2)]) (hhistory.trans rfl)).2.2 hrest
  have hsecond : relayed.received 2 = dispatched conduct beforeSecond (.number 2) :=
    (hsent beforeSecond (.number 2) [] hhistory).2.2 hrest
  refine ⟨hhistory, hrest, ?_, ?_⟩
  · rw [hfirst]
    decide +kernel
  · rw [hsecond]
    decide +kernel

end ProtoRecovery.Bus
