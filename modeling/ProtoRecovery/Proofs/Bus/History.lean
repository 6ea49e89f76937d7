import Mathlib.Data.List.Nodup
import ProtoRecovery.Bus.Dispatch
import ProtoRecovery.Proofs.Tables

/-! # Histories of a bus: the acts that were done tell who is subscribed

A subscription stands from the act that makes it to the first act that ends it. All of this is read
off the acts; a bus comes in only where its table is compared with them. -/
namespace ProtoRecovery.Bus
variable {κ τ η ν : Type}

namespace Act

def isSubscription : Act κ τ η ν → Bool
  | subscribe .. => true
  | _ => false

def isPublication : Act κ τ η ν → Bool
  | publish _ => true
  | _ => false

end Act

/-- A subscription that was made: under which label its token was put, and what was done since. -/
structure Made (κ τ η ν : Type) where
  label : κ
  token : Token τ
  handler : η
  since : List (Act κ τ η ν)

def Made.subscription (m : Made κ τ η ν) : Subscription η := ⟨m.token.serial, m.handler⟩

def madeFrom : (serial : Nat) → List (Act κ τ η ν) → List (Made κ τ η ν)
  | _, [] => []
  | serial, .subscribe label topic handler :: acts => ⟨label, ⟨topic, serial⟩, handler, acts⟩ :: madeFrom (serial + 1) acts
  | serial, .unsubscribe _ :: acts | serial, .publish _ :: acts => madeFrom serial acts

/-- The subscriptions that were made, in order. A serial counts those that were made before. -/
def made (history : List (Act κ τ η ν)) : List (Made κ τ η ν) := madeFrom 0 history

theorem serials_madeFrom (serial : Nat) (acts : List (Act κ τ η ν)) :
    (madeFrom serial acts).map (·.token.serial) = List.range' serial (acts.countP Act.isSubscription) := by
  induction acts generalizing serial with
  | nil => rfl
  | cons act acts ih => cases act <;> simp [madeFrom, ih, Act.isSubscription, List.countP_cons, List.range'_succ]

theorem madeFrom_append (serial : Nat) (acts later : List (Act κ τ η ν)) :
    madeFrom serial (acts ++ later) = (madeFrom serial acts).map (fun m => { m with since := m.since ++ later }) ++
      madeFrom (serial + acts.countP Act.isSubscription) later := by
  induction acts generalizing serial with
  | nil => rfl
  | cons act acts ih =>
    cases act <;> simp [madeFrom, ih, Act.isSubscription, List.countP_cons, Nat.add_right_comm _ 1, Nat.add_assoc]

theorem made_append (history later : List (Act κ τ η ν)) :
    made (history ++ later) = (made history).map (fun m => { m with since := m.since ++ later }) ++
      madeFrom (history.countP Act.isSubscription) later := by
  rw [made, madeFrom_append, Nat.zero_add]
  rfl

theorem serial_lt_of_mem_made {history : List (Act κ τ η ν)} {m : Made κ τ η ν} (h : m ∈ made history) :
    m.token.serial < history.countP Act.isSubscription := by
  have hmem := List.mem_map_of_mem (f := fun m : Made κ τ η ν => m.token.serial) h
  rw [made, serials_madeFrom, List.mem_range'_1] at hmem
  omega

theorem nodup_serials (history : List (Act κ τ η ν)) : ((made history).map (·.token.serial)).Nodup := by
  rw [made, serials_madeFrom]
  exact List.nodup_range'

theorem eq_of_token_eq {history : List (Act κ τ η ν)} {x y : Made κ τ η ν} (hx : x ∈ made history) (hy : y ∈ made history)
    (h : x.token = y.token) : x = y :=
  List.inj_on_of_nodup_map (nodup_serials history) hx hy (congrArg Token.serial h)

/-- After a subscription in the list come those that were made since. -/
theorem madeFrom_split {serial : Nat} {acts : List (Act κ τ η ν)} {m : Made κ τ η ν} (h : m ∈ madeFrom serial acts) :
    ∃ before, madeFrom serial acts = before ++ m :: madeFrom (m.token.serial + 1) m.since := by
  induction acts generalizing serial with
  | nil => cases h
  | cons act acts ih =>
    cases act with
    | subscribe label topic handler =>
      rcases List.mem_cons.1 h with rfl | h
      · exact ⟨[], rfl⟩
      · obtain ⟨before, hsplit⟩ := ih h
        exact ⟨⟨label, ⟨topic, serial⟩, handler, acts⟩ :: before, by rw [madeFrom, hsplit, List.cons_append]⟩
    | unsubscribe label => exact ih h
    | publish event => exact ih h

section Standing
variable [DecidableEq κ]

/-- Whether acts end the subscription whose token is under a label when they begin. Once another
token is under the label, the first one is out of reach. -/
def ends (label : κ) : List (Act κ τ η ν) → Bool
  | [] => false
  | .subscribe other _ _ :: acts => other ≠ label && ends label acts
  | .unsubscribe other :: acts => other = label || ends label acts
  | .publish _ :: acts => ends label acts

/-- The subscriptions to a topic that were made and not ended, in the order in which they were made. -/
def standing [DecidableEq τ] (history : List (Act κ τ η ν)) (topic : τ) : List (Subscription η) :=
  ((made history).filter fun m => m.token.topic = topic && !ends m.label m.since).map Made.subscription

/-- The token under a label: that of the last subscription which was made with the label. -/
def holder (history : List (Act κ τ η ν)) (label : κ) : Option (Token τ) :=
  ((made history).filter fun m => m.label = label).getLast?.map Made.token

theorem ends_append {label : κ} {acts : List (Act κ τ η ν)} (h : ends label acts = true) (later : List (Act κ τ η ν)) :
    ends label (acts ++ later) = true := by
  induction acts with
  | nil => cases h
  | cons act acts ih =>
    cases act with
    | subscribe other topic handler =>
      rw [ends, Bool.and_eq_true] at h
      rw [List.cons_append, ends, Bool.and_eq_true]
      exact ⟨h.1, ih h.2⟩
    | unsubscribe other =>
      rw [ends, Bool.or_eq_true] at h
      rw [List.cons_append, ends, Bool.or_eq_true]
      exact h.imp_right ih
    | publish event => exact ih h

theorem ends_concat_subscribe (label : κ) (acts : List (Act κ τ η ν)) (other : κ) (topic : τ) (handler : η) :
    ends label (acts ++ [.subscribe other topic handler]) = ends label acts := by
  induction acts with
  | nil => simp [ends]
  | cons act acts ih => cases act <;> simp only [List.cons_append, ends, ih]

theorem ends_concat_publish (label : κ) (acts : List (Act κ τ η ν)) (event : ν) :
    ends label (acts ++ [.publish event]) = ends label acts := by
  induction acts with
  | nil => rfl
  | cons act acts ih => cases act <;> simp only [List.cons_append, ends, ih]

theorem ends_concat_unsubscribe (label : κ) (acts : List (Act κ τ η ν)) (serial : Nat) (other : κ) :
    ends label (acts ++ [.unsubscribe other]) =
      (ends label acts || decide (other = label) && (madeFrom serial acts).all fun m => m.label ≠ label) := by
  induction acts generalizing serial with
  | nil => simp [ends, madeFrom]
  | cons act acts ih =>
    cases act with
    | subscribe third topic handler => by_cases h : third = label <;> simp [ends, madeFrom, ih (serial + 1), h]
    | unsubscribe third => simp [ends, madeFrom, ih serial, Bool.or_assoc]
    | publish event => simpa [ends, madeFrom] using ih serial

/-- The token under a label is that of a subscription with the label which no other has replaced. -/
theorem holder_eq_some_iff {history : List (Act κ τ η ν)} {m : Made κ τ η ν} (h : m ∈ made history) (label : κ) :
    holder history label = some m.token ↔
      m.label = label ∧ ∀ x ∈ madeFrom (m.token.serial + 1) m.since, x.label ≠ label := by
  obtain ⟨before, hsplit⟩ := madeFrom_split h
  rw [holder, made, hsplit, List.filter_append]
  constructor
  · intro hlast
    obtain ⟨x, hx, htoken⟩ := Option.map_eq_some_iff.1 hlast
    have hmem : x ∈ made history ∧ x.label = label := by
      rw [← List.filter_append, ← hsplit] at hx
      simpa [made] using List.mem_of_getLast? hx
    obtain rfl := eq_of_token_eq hmem.1 h htoken
    refine ⟨hmem.2, fun y hy hlabel => ?_⟩
    -- With a later one of this label, the last one would be among the later ones.
    have hne : (madeFrom (x.token.serial + 1) x.since).filter (fun m => m.label = label) ≠ [] :=
      List.ne_nil_of_mem (List.mem_filter.2 ⟨hy, by simpa using hlabel⟩)
    obtain ⟨init, z, hz⟩ := (List.eq_nil_or_concat' _).resolve_left hne
    rw [List.filter_cons_of_pos (by simpa using hmem.2), hz, ← List.cons_append, ← List.append_assoc,
      List.getLast?_concat] at hx
    obtain rfl : z = x := Option.some.inj hx
    have hzmem : z ∈ madeFrom (z.token.serial + 1) z.since := (List.mem_filter.1 (hz ▸ List.mem_concat_self)).1
    have hnodup := (nodup_serials history).of_map
    rw [made, hsplit] at hnodup
    exact (List.nodup_cons.1 hnodup.of_append_right).1 hzmem
  · rintro ⟨hlabel, hlater⟩
    have hnone : (madeFrom (m.token.serial + 1) m.since).filter (fun x => x.label = label) = [] :=
      List.filter_eq_nil_iff.2 fun x hx => by simpa using hlater x hx
    rw [List.filter_cons_of_pos (by simpa using hlabel), hnone, List.getLast?_concat]
    rfl

theorem serial_lt_of_holder {history : List (Act κ τ η ν)} {label : κ} {token : Token τ}
    (h : holder history label = some token) : token.serial < history.countP Act.isSubscription := by
  obtain ⟨m, hm, rfl⟩ := Option.map_eq_some_iff.1 h
  exact serial_lt_of_mem_made (List.mem_filter.1 (List.mem_of_getLast? hm)).1

/-! ### One more act -/

theorem holder_concat_subscribe (history : List (Act κ τ η ν)) (other label : κ) (topic : τ) (handler : η) :
    holder (history ++ [.subscribe other topic handler]) label =
      if label = other then some ⟨topic, history.countP Act.isSubscription⟩ else holder history label := by
  by_cases h : label = other
  · subst h
    simp [holder, made_append, madeFrom]
  · simp [holder, made_append, madeFrom, List.filter_map, Function.comp_def, h, Ne.symm h]

theorem holder_concat_other (history : List (Act κ τ η ν)) {act : Act κ τ η ν} (h : act.isSubscription = false)
    (label : κ) : holder (history ++ [act]) label = holder history label := by
  have hmade : ∀ serial, madeFrom serial [act] = [] := by
    intro serial
    cases act with
    | subscribe => cases h
    | unsubscribe => rfl
    | publish => rfl
  simp [holder, made_append, hmade, List.filter_map, Function.comp_def]

section Topics
variable [DecidableEq τ] (history : List (Act κ τ η ν)) (topic : τ)

theorem sorted_standing : (standing history topic).Pairwise fun x y => x.serial < y.serial := by
  have hsorted : (made history).Pairwise fun x y => x.token.serial < y.token.serial := by
    rw [← List.pairwise_map (f := fun m : Made κ τ η ν => m.token.serial) (R := (· < ·)), made, serials_madeFrom]
    exact List.pairwise_lt_range'
  exact List.pairwise_map.2 (hsorted.filter _)

theorem standing_append (later : List (Act κ τ η ν)) : standing (history ++ later) topic =
    ((made history).filter fun m => m.token.topic = topic && !ends m.label (m.since ++ later)).map Made.subscription ++
      ((madeFrom (history.countP Act.isSubscription) later).filter fun m =>
        m.token.topic = topic && !ends m.label m.since).map Made.subscription := by
  simp only [standing, made_append, List.filter_append, List.filter_map, List.map_append, List.map_map]
  rfl

theorem standing_concat_subscribe (label : κ) (other : τ) (handler : η) :
    standing (history ++ [.subscribe label other handler]) topic = standing history topic ++
      if other = topic then [⟨history.countP Act.isSubscription, handler⟩] else [] := by
  rw [standing_append]
  simp only [ends_concat_subscribe]
  by_cases h : other = topic <;> simp [standing, madeFrom, ends, Made.subscription, h]

theorem standing_concat_publish (event : ν) : standing (history ++ [.publish event]) topic = standing history topic := by
  rw [standing_append]
  simp only [ends_concat_publish]
  exact List.append_nil _

variable {history topic} in
theorem ends_since_unsubscribe {m : Made κ τ η ν} (hm : m ∈ made history) (label : κ) :
    ends m.label (m.since ++ [.unsubscribe label]) =
      (ends m.label m.since || decide (holder history label = some m.token)) := by
  rw [ends_concat_unsubscribe m.label m.since (m.token.serial + 1)]
  congr 1
  rw [Bool.eq_iff_iff, decide_eq_true_eq, holder_eq_some_iff hm label, Bool.and_eq_true, decide_eq_true_eq,
    List.all_eq_true, eq_comm]
  refine and_congr_right fun hlabel => ?_
  simp [hlabel]

/-- Of the subscriptions that stand, the one goes whose token is under the label. -/
theorem standing_concat_unsubscribe (label : κ) : standing (history ++ [.unsubscribe label]) topic =
    (standing history topic).filter fun x => holder history label ≠ some ⟨topic, x.serial⟩ := by
  rw [standing_append, standing, List.filter_map, List.filter_filter]
  refine (List.append_nil _).trans (congrArg _ (List.filter_congr fun m hm => ?_))
  rw [ends_since_unsubscribe hm label]
  by_cases htopic : m.token.topic = topic
  · subst htopic
    have htoken : (⟨m.token.topic, m.subscription.serial⟩ : Token τ) = m.token := rfl
    simp [htoken, Bool.and_comm]
  · simp [htopic]

/-- What stands after further acts stood before them, or they have made it. -/
theorem mem_standing_append {later : List (Act κ τ η ν)} {x : Subscription η} (h : x ∈ standing (history ++ later) topic) :
    x ∈ standing history topic ∨ history.countP Act.isSubscription ≤ x.serial := by
  rw [standing_append, List.mem_append] at h
  refine h.imp (fun h => ?_) fun h => ?_
  · obtain ⟨m, hm, rfl⟩ := List.mem_map.1 h
    obtain ⟨hmade, hkept⟩ := List.mem_filter.1 hm
    refine List.mem_map_of_mem (List.mem_filter.2 ⟨hmade, ?_⟩)
    simp only [Bool.and_eq_true, Bool.not_eq_true', Bool.eq_false_iff] at hkept ⊢
    exact ⟨hkept.1, fun he => hkept.2 (ends_append he later)⟩
  · obtain ⟨m, hm, rfl⟩ := List.mem_map.1 h
    have hserial := List.mem_map_of_mem (f := fun m : Made κ τ η ν => m.token.serial) (List.mem_filter.1 hm).1
    rw [serials_madeFrom, List.mem_range'_1] at hserial
    exact hserial.1

end Topics
end Standing

/-! ### The table of a bus -/

section Table
variable [DecidableEq τ]

/-- A topic has one entry at most, and never an empty one. -/
def Tidy (b : Bus τ η) : Prop := (b.table.map Prod.fst).Nodup ∧ ∀ entry ∈ b.table, entry.2 ≠ []

theorem subscriptions_assign (b : Bus τ η) (topic : τ) (subscriptions : List (Subscription η)) (other : τ) :
    (b.assign topic subscriptions).subscriptions other =
      if other = topic then subscriptions else b.subscriptions other := by
  cases subscriptions with
  | cons x xs =>
    simp only [Bus.subscriptions, assign, List.isEmpty_cons, Bool.false_eq_true, if_false, Tables.lookup_replace]
    split <;> rfl
  | nil =>
    simp only [Bus.subscriptions, assign, List.isEmpty_nil, if_true]
    split
    next h =>
      have hnone : (b.table.filter fun entry => entry.1 != topic).lookup other = none := by
        simpa [List.lookup_eq_none_iff, h] using fun a _ _ hne he => hne he.symm
      rw [hnone]
      rfl
    next h => rw [Tables.lookup_filter_ne b.table h]

theorem Tidy.assign {b : Bus τ η} (h : b.Tidy) (topic : τ) (subscriptions : List (Subscription η)) :
    (b.assign topic subscriptions).Tidy := by
  have hkeys : ((b.table.filter fun entry => entry.1 != topic).map Prod.fst).Nodup :=
    h.1.sublist (List.filter_sublist.map _)
  have hentries : ∀ entry ∈ b.table.filter fun entry => entry.1 != topic, entry.2 ≠ [] := fun entry he =>
    h.2 entry (List.mem_filter.1 he).1
  cases subscriptions with
  | nil => exact ⟨hkeys, hentries⟩
  | cons x xs => exact ⟨List.nodup_cons.2 ⟨by simp, hkeys⟩, List.forall_mem_cons.2 ⟨List.cons_ne_nil x xs, hentries⟩⟩

theorem eraseP_serial {xs : List (Subscription η)} (h : xs.Pairwise fun x y => x.serial < y.serial) (serial : Nat) :
    (xs.eraseP fun x => x.serial == serial) = xs.filter fun x => x.serial ≠ serial := by
  induction h with
  | nil => rfl
  | @cons x xs hx _ ih =>
    by_cases hs : x.serial = serial
    · have hrest : (xs.filter fun y => y.serial ≠ serial) = xs := by
        refine List.filter_eq_self.2 fun y hy => decide_eq_true ?_
        have := hx y hy
        omega
      rw [List.eraseP_cons_of_pos (by simpa using hs), List.filter_cons_of_neg (by simpa using hs), hrest]
    · rw [List.eraseP_cons_of_neg (by simpa using hs), List.filter_cons_of_pos (by simpa using hs), ih]

/-- Where serials rise, a token takes away its own subscription, and leaves all others in their order. -/
theorem subscriptions_unsubscribe {b : Bus τ η} (token : Token τ)
    (h : (b.subscriptions token.topic).Pairwise fun x y => x.serial < y.serial) (topic : τ) :
    (b.unsubscribe token).subscriptions topic =
      (b.subscriptions topic).filter fun x => token ≠ ⟨topic, x.serial⟩ := by
  obtain ⟨own, serial⟩ := token
  rw [unsubscribe, subscriptions_assign, eraseP_serial h]
  split
  next htopic =>
    subst htopic
    refine List.filter_congr fun x _ => ?_
    simp [eq_comm]
  next htopic =>
    refine (List.filter_eq_self.2 fun x _ => decide_eq_true ?_).symm
    exact fun he => htopic (congrArg Token.topic he).symm

end Table

section Records
variable [DecidableEq κ] [DecidableEq τ]

/-- A bus has the subscriptions that stand after some acts. -/
structure Records (history : List (Act κ τ η ν)) (b : Bus τ η) : Prop where
  next : b.next = history.countP Act.isSubscription
  subscriptions : ∀ topic, b.subscriptions topic = standing history topic
  tidy : b.Tidy

namespace Records
variable {history : List (Act κ τ η ν)} {b : Bus τ η}

theorem sorted (h : Records history b) (topic : τ) : (b.subscriptions topic).Pairwise fun x y => x.serial < y.serial := by
  rw [h.subscriptions]
  exact sorted_standing history topic

theorem empty : Records ([] : List (Act κ τ η ν)) ({} : Bus τ η) :=
  ⟨rfl, fun _ => rfl, List.nodup_nil, by simp⟩

theorem subscribe (h : Records history b) (label : κ) (topic : τ) (handler : η) :
    Records (history ++ [.subscribe label topic handler]) (b.subscribe topic handler).1 where
  next := by simp [Bus.subscribe, h.next, Act.isSubscription]
  subscriptions other := by
    rw [standing_concat_subscribe, ← h.subscriptions, ← h.next]
    refine (subscriptions_assign b topic _ other).trans ?_
    by_cases ht : other = topic
    · subst ht
      simp
    · simp [ht, Ne.symm ht]
  tidy := h.tidy.assign topic _

theorem unsubscribe (h : Records history b) {label : κ} {token : Token τ} (hlabel : holder history label = some token) :
    Records (history ++ [.unsubscribe label]) (b.unsubscribe token) where
  next := by simpa [Bus.unsubscribe, assign, Act.isSubscription] using h.next
  subscriptions topic := by
    rw [subscriptions_unsubscribe token (h.sorted _), standing_concat_unsubscribe, hlabel, h.subscriptions]
    simp
  tidy := h.tidy.assign _ _

theorem keep (h : Records history b) {act : Act κ τ η ν} (hact : act.isSubscription = false)
    (hstanding : ∀ topic, standing (history ++ [act]) topic = standing history topic) : Records (history ++ [act]) b where
  next := by simpa [hact] using h.next
  subscriptions topic := by rw [hstanding, h.subscriptions]
  tidy := h.tidy

end Records
end Records
end ProtoRecovery.Bus
