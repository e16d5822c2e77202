import LiveDocuments.Proofs.Binding.Members
import LiveDocuments.Proofs.Store.Isolation

/-!
# What lists pass on

A list tells its own listeners of each addition that waits on its feed, and has the model tell
everyone of each other change. Here it is told exactly, event by event and in the order of the
feed, what is raised when a list processes its changes (`QueryCore.emitted_process_plural`),
and how many notifications it counts.
-/

namespace LiveDocuments

open Model

/-- A refresh as it is raised: on the bindings that the model knows, one after the other, and
then on the model. -/
def Emission.refreshes (members : List BindingId) : List Emission :=
  members.map (fun id => .binding id (.change .refresh)) ++ [.model .refresh]

theorem Model.emitted_refresh (m : Model) :
    m.refresh.emitted = m.emitted ++ Emission.refreshes m.members := by
  have htold : ∀ (members : List BindingId) (n : Model),
      (members.foldl (fun n id => n.emitOn id (.change .refresh)) n).emitted =
        n.emitted ++ members.map fun id => .binding id (.change .refresh) := by
    intro members
    induction members with
    | nil => exact fun n => (List.append_nil _).symm
    | cons id rest ih =>
        intro n
        rw [List.foldl_cons, ih, List.map_cons]
        exact List.append_assoc n.emitted [_] _
  rw [refresh, emit, htold, Emission.refreshes, List.append_assoc]

theorem Store.pending_drain (s : Store) (feed : FeedId) :
    (s.drain feed).2.pending feed = [] := by
  have hkept : ∀ q : LiveQuery,
      (if q.feed = feed then { q with pending := [] } else q).feed = q.feed := by
    intro q
    split <;> rfl
  simp only [pending, drain, find?_map_of_feed hkept]
  cases hfind : s.live.find? fun q => q.feed = feed with
  | none => rfl
  | some q =>
      have hfeed : q.feed = feed := by simpa using List.find?_some hfind
      simp only [Option.map_some, if_pos hfeed]

/-- What is raised when a binding of the model passes a notification on. -/
def Notification.raised (id : BindingId) (members : List BindingId) :
    Notification → List Emission
  | dataReceived => [.binding id .dataReceived]
  | change reason => [.binding id (.change reason)]
  | refreshRequested => Emission.refreshes members

namespace ChangeEvent

/-- Whether a document came in. -/
def isAdded : ChangeEvent → Bool
  | added .. => true
  | _ => false

/-- Whether a document changed. -/
def isChanged : ChangeEvent → Bool
  | changed .. => true
  | _ => false

/-- Whether a document went out. -/
def isRemoved : ChangeEvent → Bool
  | removed _ => true
  | _ => false

/-- What is raised when a list passes a change on: an addition is told on the list alone,
anything else is a refresh of the model. -/
def passedOn (id : BindingId) (members : List BindingId) : ChangeEvent → List Emission
  | added .. => [.binding id .dataReceived, .binding id (.change .add)]
  | changed .. => Emission.refreshes members
  | removed _ => Emission.refreshes members

end ChangeEvent

/-! ## Passing changes on -/

namespace Synchronizer

variable {mode : SyncMode}

/-- The notifications of a list are counted by the changes they are made of. -/
theorem length_notificationsOf (hmode : mode ≠ .single) (events : List ChangeEvent) :
    (events.flatMap (notificationsOf mode)).length =
      2 * events.countP ChangeEvent.isAdded + events.countP ChangeEvent.isChanged +
        events.countP ChangeEvent.isRemoved := by
  induction events with
  | nil => rfl
  | cons event rest ih =>
      have hone : (notificationsOf mode event).length =
          2 * event.isAdded.toNat + event.isChanged.toNat + event.isRemoved.toNat := by
        cases mode with
        | single => exact absurd rfl hmode
        | _ => cases event <;> rfl
      rw [List.flatMap_cons, List.length_append, hone, ih]
      simp only [List.countP_cons]
      cases event <;> simp [ChangeEvent.isAdded, ChangeEvent.isChanged, ChangeEvent.isRemoved] <;>
        omega

theorem flatMap_raised (hmode : mode ≠ .single) (id : BindingId) (members : List BindingId)
    (event : ChangeEvent) :
    (notificationsOf mode event).flatMap (Notification.raised id members) =
      event.passedOn id members := by
  cases mode with
  | single => exact absurd rfl hmode
  | _ => cases event <;> simp [notificationsOf, received, Notification.raised, ChangeEvent.passedOn]

end Synchronizer

namespace QueryCore

variable {core : QueryCore} {mode : SyncMode}

/-- Notifications are raised one after the other, refreshes on the same members throughout. -/
theorem emitted_dispatch (id : BindingId) (m : Model) (notifications : List Notification) :
    (dispatch id m notifications).emitted =
      m.emitted ++ notifications.flatMap (Notification.raised id m.members) := by
  induction notifications generalizing m with
  | nil => exact (List.append_nil _).symm
  | cons notification rest ih =>
      rw [List.flatMap_cons, ← List.append_assoc]
      cases notification with
      | dataReceived => exact ih (m.emitOn id .dataReceived)
      | change reason => exact ih (m.emitOn id (.change reason))
      | refreshRequested =>
          refine (ih m.refresh).trans ?_
          rw [emitted_refresh, (OnlyRaises.refresh m).members_eq]
          rfl

theorem emitted_dispatch_plural (hmode : mode ≠ .single) (id : BindingId) (m : Model)
    (events : List ChangeEvent) :
    (dispatch id m (events.flatMap (Synchronizer.notificationsOf mode))).emitted =
      m.emitted ++ events.flatMap (ChangeEvent.passedOn id m.members) := by
  rw [emitted_dispatch, List.flatMap_assoc]
  simp only [Synchronizer.flatMap_raised hmode]

/-- The changes that wait on the feed of what is followed. -/
def waiting (core : QueryCore) (m : Model) : List ChangeEvent :=
  match core.subscription? with
  | none => []
  | some subscription => m.store.pending subscription.feed

/-- What a list passes on when it processes its changes. -/
theorem emitted_process_plural (hmode : core.sync.mode ≠ .single) (m : Model) :
    let events := core.waiting m
    (core.process m).1 = 2 * events.countP ChangeEvent.isAdded +
        events.countP ChangeEvent.isChanged + events.countP ChangeEvent.isRemoved ∧
      (core.process m).2.2.emitted =
        m.emitted ++ events.flatMap (ChangeEvent.passedOn core.id m.members) := by
  cases hsubscription : core.subscription? with
  | none =>
      simp only [process, waiting, hsubscription]
      exact ⟨rfl, (List.append_nil _).symm⟩
  | some subscription =>
      have hinUse : core.sync.isDestroyed = false := isDestroyed_of_subscription? hsubscription
      simp only [process, waiting, hsubscription, Synchronizer.fst_applyAll hinUse]
      exact ⟨Synchronizer.length_notificationsOf hmode _, emitted_dispatch_plural hmode core.id _ _⟩

theorem waiting_process (core : QueryCore) (m : Model) :
    (core.process m).2.1.waiting (core.process m).2.2 = [] := by
  have hsame := (core.query_process m).2
  cases hsubscription : core.subscription? with
  | none =>
      rw [hsubscription] at hsame
      rw [waiting, hsame]
  | some subscription =>
      rw [hsubscription] at hsame
      have hstore : (core.process m).2.2.store = (m.store.drain subscription.feed).2 := by
        simp only [process, hsubscription]
        obtain ⟨emitted, hdispatch⟩ := onlyRaises_dispatch core.id
          { m.withStore (m.store.drain subscription.feed).2 with
            contexts := (core.sync.applyAll m.contexts (m.store.drain subscription.feed).1).2.2 }
          (core.sync.applyAll m.contexts (m.store.drain subscription.feed).1).1
        exact congrArg Model.store hdispatch
      rw [waiting, hsame]
      show (core.process m).2.2.store.pending subscription.feed = []
      rw [hstore]
      exact m.store.pending_drain subscription.feed

end QueryCore

/-! ## Lists -/

namespace Binding

/-- Whether a binding shows a list. -/
def isList : Binding → Bool
  | list _ => true
  | _ => false

theorem isList_act (m : Model) (action : BindingAction) (b : Binding) :
    (b.act m action).1.isList = b.isList := by
  cases b with
  | property b => cases action <;> rfl
  | context b => cases action <;> rfl
  | list b => cases b <;> cases action <;> rfl

theorem exists_core?_of_isList {b : Binding} (h : b.isList = true) :
    ∃ core, b.core? = some core := by
  cases b with
  | list b => cases b <;> exact ⟨_, rfl⟩
  | _ => cases h

/-- No list is about a single document. -/
def IsPlural (b : Binding) : Prop :=
  b.isList = true → ∀ core, b.core? = some core → core.sync.mode ≠ .single

theorem IsPlural.act {b : Binding} (h : b.IsPlural) (m : Model) (action : BindingAction) :
    (b.act m action).1.IsPlural := by
  intro hlist next hnext
  rw [isList_act] at hlist
  obtain ⟨core, hcore⟩ := exists_core?_of_isList hlist
  obtain ⟨other, hother, hmode⟩ :=
    core?_act (QueryCore.persists_mode core.sync.mode) m action hcore rfl
  obtain rfl := Option.some.inj (hnext.symm.trans hother)
  rw [hmode]
  exact h hlist core hcore

/-- The changes that wait for a binding. -/
def waiting (m : Model) (b : Binding) : List ChangeEvent :=
  (b.core?.map fun core => core.waiting m).getD []

theorem waiting_of_core? {b : Binding} {core : QueryCore} (h : b.core? = some core)
    (m : Model) : b.waiting m = core.waiting m := by
  rw [waiting, h]
  rfl

theorem process_of_isList {b : Binding} (hlist : b.isList = true) {core : QueryCore}
    (h : b.core? = some core) (m : Model) :
    (b.process m).1 = (core.process m).1 ∧ (b.process m).2.2 = (core.process m).2.2 ∧
      (b.process m).2.1.core? = some (core.process m).2.1 := by
  cases b with
  | list b =>
      cases b <;> (obtain rfl := Option.some.inj h; exact ⟨rfl, rfl, rfl⟩)
  | _ => cases hlist

end Binding

theorem DocumentList.isPlural_create {m : Model} {path : String} {sorters : List Sorter}
    {filters : List Filter} {b : DocumentList}
    (h : (create m path sorters filters).1 = .ok b) :
    (Binding.list (.documents b)).IsPlural := by
  cases hcomponents : m.componentsOf path none with
  | error e =>
      simp only [create, Model.components, hcomponents] at h
      cases h
  | ok c =>
      rw [create_of_componentsOf hcomponents] at h
      obtain rfl := Except.ok.inj h
      intro _ core hcore hsingle
      obtain rfl := Option.some.inj hcore
      have hmode := (unqueried m path c sorters filters).1.core.mode_run
        (unqueried m path c sorters filters).2 c sorters filters
      cases hmode.symm.trans hsingle

theorem ElementList.isPlural_create {m : Model} {path : String} {parent : Context}
    {sorters : List Sorter} {filters : List Filter} {b : ElementList}
    (h : (create m path parent sorters filters).1 = .ok b) :
    (Binding.list (.elements b)).IsPlural := by
  intro _ core hcore hsingle
  obtain rfl := Option.some.inj hcore
  cases hcomponents : m.componentsOf path (some parent) with
  | error e =>
      simp only [create, Model.components, hcomponents] at h
      cases h
  | ok c =>
      simp only [create, Model.components, hcomponents] at h
      split at h
      · obtain rfl := Except.ok.inj h
        have hmode := (QueryCore.create m .elements).1.mode_run
          (QueryCore.create m .elements).2 c [] []
        cases hmode.symm.trans hsingle
      · obtain rfl := Except.ok.inj h
        cases hsingle

end LiveDocuments
