import LiveDocuments.Proofs.Binding.Documents
import LiveDocuments.Proofs.Model.LiveQueries
import LiveDocuments.Proofs.Session.Accounts
import LiveDocuments.Proofs.Synchronizer.Lifecycle

/-!
# The turns of bindings

Whatever is asked of a binding, and whatever the store and the model make of it, is one
of the turns that a ledger knows (`Binding.turn_act`), and so is making a binding
(`Binding.IsMade`). Which attempt a request amounts to, and whether it will be granted,
is told beforehand from the model and from what the binding was given.
-/

namespace LiveDocuments

/-! ## The part that follows a query -/

namespace QueryCore

/-- What a core holds. -/
def follower (core : QueryCore) : Follower := ⟨core.sync.feeds, core.isDestroyed⟩

theorem follower_congr {core other : QueryCore} (h : other.sync.phase = core.sync.phase) :
    other.follower = core.follower := by
  simp only [follower, isDestroyed, Synchronizer.feeds, Synchronizer.subscription?,
    Synchronizer.isDestroyed, h]

theorem rests_process (core : QueryCore) (m : Model) :
    (core.process m).2.2.ledger = m.ledger ∧
      (core.process m).2.1.follower = core.follower := by
  cases hsubscription : core.subscription? with
  | none => simp only [process, hsubscription, and_self]
  | some subscription =>
      simp only [process, hsubscription]
      refine ⟨?_, follower_congr (Synchronizer.phase_applyAll core.sync _ _)⟩
      rw [(onlyRaises_dispatch core.id _ _).ledger_eq]
      exact m.ledger_drain subscription.feed

theorem reset_eq (core : QueryCore) (m : Model) :
    m.stopFeeds core.follower.feeds = (core.reset m).2.2 ∧
      (core.reset m).2.1.follower = ⟨[], core.isDestroyed⟩ ∧
      (core.reset m).2.1.id = core.id := by
  obtain ⟨id, ⟨mode, phase, contexts⟩, cursor⟩ := core
  cases phase <;> exact ⟨rfl, rfl, rfl⟩

theorem follower_abandon {core : QueryCore} {destroyed : Bool}
    (h : core.follower = ⟨[], destroyed⟩) :
    follower { core with sync := core.sync.abandon } = ⟨[], destroyed⟩ := by
  obtain ⟨id, ⟨mode, phase, contexts⟩, cursor⟩ := core
  cases phase <;> exact h

/-- A core that has let go of everything keeps a new feed, unless it is destroyed. -/
theorem follower_attach {core : QueryCore} {destroyed : Bool}
    (h : core.follower = ⟨[], destroyed⟩) (subscription : Subscription)
    (cursor : Option Cursor) :
    (core.sync.attach subscription).1 = (if destroyed then [subscription.feed] else []) ∧
      follower ⟨core.id, (core.sync.attach subscription).2, cursor⟩ =
        ⟨if destroyed then [] else [subscription.feed], destroyed⟩ := by
  obtain ⟨id, ⟨mode, phase, contexts⟩, cursor⟩ := core
  cases phase <;> cases destroyed <;> first | exact ⟨rfl, rfl⟩ | cases h

theorem feeds_of_isDestroyed {core : QueryCore} (h : core.isDestroyed = true) :
    core.follower.feeds = [] := by
  obtain ⟨id, ⟨mode, phase, contexts⟩, cursor⟩ := core
  cases phase <;> first | rfl | cases h

theorem turn_run (core : QueryCore) (m : Model) (c : Components) (sorters : List Sorter)
    (filters : List Filter) :
    Turn m.ledger core.follower (some (m.grants c sorters filters))
      (core.run m c sorters filters).2.ledger (core.run m c sorters filters).1.follower := by
  obtain ⟨hstopped, hfresh, -⟩ := core.reset_eq m
  unfold run
  split
  next notifications fresh n hreset =>
  rw [hreset] at hstopped hfresh
  obtain rfl := hstopped
  have hraised := onlyRaises_dispatch fresh.id (m.stopFeeds core.follower.feeds) notifications
  have hledger := hraised.ledger_eq.trans (m.ledger_stopFeeds core.follower.feeds)
  have hgrants := ((Model.Keeps.stopFeeds m core.follower.feeds).trans
    (.of_onlyRaises hraised)).grants_eq c sorters filters
  -- all that is left of the model that asks is its ledger and what it grants
  generalize dispatch fresh.id (m.stopFeeds core.follower.feeds) notifications = asking at *
  cases hgranted : m.grants c sorters filters with
  | false =>
      obtain ⟨e, answered, hsubscribe, hanswered⟩ :=
        Model.subscribe_of_not_grants (hgrants.trans hgranted) fresh.id
      simp only [hsubscribe]
      rw [(onlyRaises_fail fresh.id answered e).ledger_eq, hanswered, hledger,
        follower_abandon hfresh]
      exact .refused
  | true =>
      obtain ⟨cursor, subscription, answered, hsubscribe, hfeed, hanswered⟩ :=
        Model.subscribe_of_grants (hgrants.trans hgranted) fresh.id
      obtain ⟨hlet, hkept⟩ := follower_attach hfresh subscription (some cursor)
      have hmodel := Model.alive_of_grants hgranted
      have hnext : subscription.feed = m.ledger.nextFeed := by
        rw [hfeed, hledger, Ledger.stopAll_eq]
      simp only [hsubscribe]
      rw [(rests_process _ _).1, (rests_process _ _).2, hkept, hlet, Model.ledger_stopFeeds,
        hanswered, hledger, hnext]
      cases hdestroyed : core.isDestroyed with
      | false => exact .renewed hmodel hdestroyed
      | true =>
          have hnone := feeds_of_isDestroyed hdestroyed
          have hcore : core.follower = ⟨[], true⟩ := by
            rw [← hnone, ← hdestroyed]
            rfl
          rw [hcore]
          exact .vain hmodel rfl

theorem turn_clear (core : QueryCore) (m : Model) :
    Turn m.ledger core.follower (some false) (core.clear m).2.ledger
      (core.clear m).1.follower := by
  obtain ⟨hstopped, hfresh, -⟩ := core.reset_eq m
  unfold clear
  split
  next notifications fresh n hreset =>
  rw [hreset] at hstopped hfresh
  obtain rfl := hstopped
  rw [(onlyRaises_dispatch fresh.id _ notifications).ledger_eq, Model.ledger_stopFeeds,
    follower_abandon hfresh]
  exact .refused

theorem destroy_eq (core : QueryCore) (m : Model) :
    (core.destroy m).2.ledger = m.ledger.stopAll core.follower.feeds ∧
      (core.destroy m).1.follower = ⟨[], true⟩ := by
  have hdestroy : (core.destroy m).2 = m.stopFeeds core.follower.feeds ∧
      (core.destroy m).1.follower = ⟨[], true⟩ := by
    obtain ⟨id, ⟨mode, phase, contexts⟩, cursor⟩ := core
    cases phase <;> exact ⟨rfl, rfl⟩
  rw [hdestroy.1, Model.ledger_stopFeeds]
  exact ⟨rfl, hdestroy.2⟩

theorem isDestroyed_run (core : QueryCore) (m : Model) (c : Components)
    (sorters : List Sorter) (filters : List Filter) :
    (core.run m c sorters filters).1.isDestroyed = core.isDestroyed :=
  (core.turn_run m c sorters filters).destroyed_of_attempt

theorem id_process (core : QueryCore) (m : Model) : (core.process m).2.1.id = core.id := by
  unfold process
  split <;> rfl

theorem id_run (core : QueryCore) (m : Model) (c : Components) (sorters : List Sorter)
    (filters : List Filter) : (core.run m c sorters filters).1.id = core.id := by
  obtain ⟨-, -, hid⟩ := core.reset_eq m
  unfold run
  split
  next notifications fresh n hreset =>
  rw [hreset] at hid
  dsimp only
  split
  · exact (id_process _ _).trans hid
  · exact hid

end QueryCore

/-! ## Requests to bindings -/

namespace Binding

/-- What a binding holds. -/
def follower (b : Binding) : Follower :=
  ⟨(b.core?.map fun core => core.sync.feeds).getD [], b.isDestroyed⟩

/-- The attempt that a request makes of a binding to query or to be bound anew, if it makes
one, and whether it will be granted. -/
def attempt? (m : Model) : BindingAction → Binding → Option Bool
  | .filter filters, list (.documents b) =>
      if b.core.isDestroyed then none else some (m.grants b.components b.sorters filters)
  | .sort sorters, list (.documents b) =>
      if b.core.isDestroyed then none else some (m.grants b.components sorters b.filters)
  | .refresh true, list (.documents b) =>
      if b.core.isDestroyed then none else some (m.grants b.components b.sorters b.filters)
  | .refresh true, list (.elements b) =>
      if b.inert || b.core.isDestroyed then none else some (m.grants b.components [] [])
  | .setContext other, context b =>
      if Context.areSame b.context other then none
      else
        match m.componentsOf b.path other with
        | .ok c => some (m.grants c [] [])
        | .error _ => some false
  | _, _ => none

end Binding

namespace PropertyBinding

theorem destroyed_checkUpdate (b : PropertyBinding) (m : Model) (force : Bool) :
    (b.checkUpdate m force).2.1.destroyed = b.destroyed := by
  unfold checkUpdate
  split
  · rfl
  dsimp only
  split <;> rfl

theorem destroyed_setContext (b : PropertyBinding) (m : Model) (other : Option Context) :
    (b.setContext m other).1.destroyed = b.destroyed := by
  unfold setContext
  split
  · rfl
  · exact destroyed_checkUpdate { b with context := other } m false

end PropertyBinding

namespace DocumentList

theorem turn_requery (b : DocumentList) (m : Model) :
    Turn m.ledger b.core.follower
      (if b.core.isDestroyed then none else some (m.grants b.components b.sorters b.filters))
      (b.requery m).2.ledger (b.requery m).1.core.follower := by
  unfold requery
  split
  · exact .rest
  · exact b.core.turn_run m b.components b.sorters b.filters

end DocumentList

namespace ContextBinding

theorem turn_requery (b : ContextBinding) (m : Model) :
    Turn m.ledger b.core.follower
      (match m.componentsOf b.path b.context with
        | .ok c => some (m.grants c [] [])
        | .error _ => some false)
      (b.requery m).2.ledger (b.requery m).1.core.follower := by
  cases hcomponents : m.componentsOf b.path b.context with
  | error e =>
      simp only [requery, Model.components, hcomponents]
      have hclear := b.core.turn_clear (m.report e none)
      rwa [(Model.OnlyRaises.report m e none).ledger_eq] at hclear
  | ok c =>
      simp only [requery, Model.components, hcomponents]
      exact b.core.turn_run m c [] []

theorem core_renewElement (b : ContextBinding) (m : Model) (force : Bool) :
    (b.renewElement m force).1.core = b.core := by
  simp only [renewElement]
  split <;> rfl

theorem turn_setContext (b : ContextBinding) (m : Model) (other : Option Context) :
    Turn m.ledger b.core.follower ((Binding.context b).attempt? m (.setContext other))
      (b.setContext m other).2.ledger (b.setContext m other).1.core.follower := by
  by_cases hsame : Context.areSame b.context other = true
  · simp only [setContext, Binding.attempt?, if_pos hsame]
    exact .rest
  · have hrequery := turn_requery { b with context := other } m
    simp only [setContext, Binding.attempt?, if_neg hsame]
    rw [(onlyAsks_renewElement _ _ false).ledger_eq, core_renewElement]
    exact hrequery

end ContextBinding

namespace ElementList

theorem turn_refresh (b : ElementList) (m : Model) (force : Bool) :
    Turn m.ledger b.core.follower ((Binding.list (.elements b)).attempt? m (.refresh force))
      (b.refresh m force).2.ledger (b.refresh m force).1.core.follower := by
  cases force with
  | false => exact .rest
  | true =>
      have hrun := b.core.turn_run m b.components [] []
      cases hinert : b.inert <;> cases hdestroyed : b.core.isDestroyed <;>
        simp only [refresh, Binding.attempt?, hinert, hdestroyed]
      · exact hrun
      all_goals exact .rest

end ElementList

namespace Binding

theorem turn_property (m : Model) (action : BindingAction) (b : PropertyBinding) :
    Turn m.ledger (property b).follower ((property b).attempt? m action)
      ((property b).act m action).2.ledger ((property b).act m action).1.follower := by
  have hfollower : ∀ other : PropertyBinding, other.destroyed = b.destroyed →
      (property other).follower = (property b).follower := by
    intro other hdestroyed
    show Follower.mk [] other.destroyed = _
    rw [hdestroyed]
    rfl
  have hcheck : ∀ force, (property (b.checkUpdate m force).2.1).follower =
      (property b).follower :=
    fun force => hfollower _ (b.destroyed_checkUpdate m force)
  cases action with
  | process => exact .of_eq (b.onlyAsks_checkUpdate m false).ledger_eq (hcheck false)
  | refresh force =>
      cases force with
      | true => exact .of_eq (b.onlyAsks_checkUpdate m true).ledger_eq (hcheck true)
      | false => exact .of_eq (b.onlyAsks_checkUpdate m false).ledger_eq (hcheck false)
  | checkUpdate force => exact .of_eq (b.onlyAsks_checkUpdate m force).ledger_eq (hcheck force)
  | setContext other =>
      exact .of_eq (b.onlyAsks_setContext m other).ledger_eq
        (hfollower _ (b.destroyed_setContext m other))
  | currentValue =>
      exact .of_eq (PropertyBinding.onlyAsks_readAt m b.path b.context).ledger_eq rfl
  | destroy => exact .ended
  | _ => exact .rest

theorem turn_context (m : Model) (action : BindingAction) (b : ContextBinding) :
    Turn m.ledger (context b).follower ((context b).attempt? m action)
      ((context b).act m action).2.ledger ((context b).act m action).1.follower := by
  have hrenew : ∀ force, (b.renewElement m force).1.core.follower = b.core.follower :=
    fun force => by rw [b.core_renewElement]
  cases action with
  | process => exact .of_eq (b.core.rests_process m).1 (b.core.rests_process m).2
  | refresh force =>
      cases force with
      | true => exact .of_eq (b.onlyAsks_renewElement m true).ledger_eq (hrenew true)
      | false => exact .of_eq (b.onlyAsks_renewElement m false).ledger_eq (hrenew false)
  | announce => exact .of_eq (b.onlyAsks_renewElement m true).ledger_eq (hrenew true)
  | setContext other => exact b.turn_setContext m other
  | destroy => exact .of_ended (b.core.destroy_eq m).1 (b.core.destroy_eq m).2
  | _ => exact .rest

theorem turn_documents (m : Model) (action : BindingAction) (b : DocumentList) :
    Turn m.ledger (list (.documents b)).follower ((list (.documents b)).attempt? m action)
      ((list (.documents b)).act m action).2.ledger
      ((list (.documents b)).act m action).1.follower := by
  cases action with
  | process => exact .of_eq (b.core.rests_process m).1 (b.core.rests_process m).2
  | refresh force =>
      cases force with
      | true => exact b.turn_requery m
      | false => exact .rest
  | filter filters => exact DocumentList.turn_requery { b with filters := filters } m
  | sort sorters => exact DocumentList.turn_requery { b with sorters := sorters } m
  | destroy => exact .of_ended (b.core.destroy_eq m).1 (b.core.destroy_eq m).2
  | _ => exact .rest

theorem turn_elements (m : Model) (action : BindingAction) (b : ElementList) :
    Turn m.ledger (list (.elements b)).follower ((list (.elements b)).attempt? m action)
      ((list (.elements b)).act m action).2.ledger
      ((list (.elements b)).act m action).1.follower := by
  cases action with
  | process => exact .of_eq (b.core.rests_process m).1 (b.core.rests_process m).2
  | refresh force => exact b.turn_refresh m force
  | getContexts start length => exact .of_eq (b.onlyAsks_materialize m).ledger_eq rfl
  | destroy => exact .of_ended (b.core.destroy_eq m).1 (b.core.destroy_eq m).2
  | _ => exact .rest

/-- Whatever is asked of a binding, it makes one of the turns. -/
theorem turn_act (m : Model) (action : BindingAction) (b : Binding) :
    Turn m.ledger b.follower (b.attempt? m action) (b.act m action).2.ledger
      (b.act m action).1.follower := by
  cases b with
  | property b => exact turn_property m action b
  | context b => exact turn_context m action b
  | list b =>
      cases b with
      | documents b => exact turn_documents m action b
      | elements b => exact turn_elements m action b

theorem drop_eq (m : Model) (b : Binding) :
    (b.drop m).ledger = (b.act m .destroy).2.ledger ∧
      (b.act m .destroy).1.follower.feeds = [] := by
  refine ⟨rfl, ?_⟩
  have hcore : ∀ core : QueryCore, (core.destroy m).1.follower.feeds = [] := fun core => by
    rw [(core.destroy_eq m).2]
  cases b with
  | property b => rfl
  | context b => exact hcore b.core
  | list b =>
      cases b with
      | documents b => exact hcore b.core
      | elements b => exact hcore b.core

/-! ## Making bindings -/

theorem map_map_list {α : Type} (made : Except BindingError α) (f : α → ListBinding) :
    (made.map f).map list = made.map (list ∘ f) := by
  cases made <;> rfl

/-- A binding is made with the next number and makes its first turn, or nothing happens. -/
def IsMade (m : Model) (attempt : Option Bool) :
    Except BindingError Binding × Model → Prop
  | (.error _, n) => attempt = none ∧ n.ledger = m.ledger
  | (.ok b, n) => b.id = m.nextBinding ∧
      Turn m.ledger.registering .fresh attempt n.ledger b.follower

end Binding

namespace Model

/-- The attempt to query what a path names, if it names anything, and whether it will be
granted. -/
def attemptAt? (m : Model) (path : String) (context : Option Context) (sorters : List Sorter)
    (filters : List Filter) : Option Bool :=
  match m.componentsOf path context with
  | .ok c => some (m.grants c sorters filters)
  | .error _ => none

end Model

open Binding

theorem PropertyBinding.isMade (m : Model) (path : String) (context : Option Context) :
    IsMade m none ((PropertyBinding.create m path context).1.map .property,
      (PropertyBinding.create m path context).2) := by
  have hcheck := onlyAsks_checkPath m path context
  unfold create
  split
  · next heq =>
      rw [heq] at hcheck
      exact ⟨rfl, hcheck.ledger_eq⟩
  · next heq =>
      rw [heq] at hcheck
      obtain ⟨_, _, _, rfl⟩ := hcheck
      exact ⟨rfl, .of_eq (onlyAsks_readAt _ path context).ledger_eq rfl⟩

theorem ContextBinding.isMade (m : Model) (path : String) (context : Option Context) :
    IsMade m (m.attemptAt? path context [] [])
      ((ContextBinding.create m path context).1.map .context,
        (ContextBinding.create m path context).2) := by
  unfold Model.attemptAt?
  cases hcomponents : m.componentsOf path context with
  | error e =>
      simp only [create, Model.components, hcomponents]
      exact ⟨rfl, (Model.OnlyRaises.report m e none).ledger_eq⟩
  | ok c =>
      simp only [create, Model.components, hcomponents]
      have hcreate := Model.OnlyAsks.createContext m path context
      have hnumber := congrArg Ledger.nextBinding hcreate.ledger_eq
      have hgrants := hcreate.keeps.grants_eq c [] []
      have hledger := hcreate.ledger_eq
      generalize (m.createContext path context).2 = n at *
      have hrun := (QueryCore.create n .single).1.turn_run (QueryCore.create n .single).2 c [] []
      refine ⟨(QueryCore.id_run _ _ c [] []).trans hnumber, ?_⟩
      rw [← hledger, ← hgrants]
      exact hrun

theorem DocumentList.isMade (m : Model) (path : String) (sorters : List Sorter)
    (filters : List Filter) :
    IsMade m (m.attemptAt? path none sorters filters)
      ((DocumentList.create m path sorters filters).1.map (.list ∘ .documents),
        (DocumentList.create m path sorters filters).2) := by
  unfold Model.attemptAt?
  cases hcomponents : m.componentsOf path none with
  | error e =>
      simp only [create, Model.components, hcomponents]
      exact ⟨rfl, (Model.OnlyRaises.report m e none).ledger_eq⟩
  | ok c =>
      rw [create_of_componentsOf hcomponents]
      refine ⟨QueryCore.id_run _ _ c sorters filters, ?_⟩
      exact (unqueried m path c sorters filters).1.turn_requery
        (unqueried m path c sorters filters).2

theorem ElementList.isMade (m : Model) (path : String) (parent : Context)
    (sorters : List Sorter) (filters : List Filter) :
    IsMade m
      (if sorters.isEmpty && filters.isEmpty then m.attemptAt? path (some parent) [] []
        else none)
      ((ElementList.create m path parent sorters filters).1.map (.list ∘ .elements),
        (ElementList.create m path parent sorters filters).2) := by
  unfold Model.attemptAt?
  cases hcomponents : m.componentsOf path (some parent) with
  | error e =>
      simp only [create, Model.components, hcomponents]
      refine ⟨?_, (Model.OnlyRaises.report m e none).ledger_eq⟩
      split <;> rfl
  | ok c =>
      simp only [create, Model.components, hcomponents]
      split
      · refine ⟨QueryCore.id_run _ _ c [] [], ?_⟩
        exact (QueryCore.create m .elements).1.turn_run (QueryCore.create m .elements).2 c [] []
      · exact ⟨rfl, .of_eq (Model.OnlyAsks.emitOn _ _ _).ledger_eq rfl⟩

end LiveDocuments
