import LiveDocuments.Proofs.Binding.Acting

/-!
# Which bindings a model knows

A model knows its bindings by their numbers, and a refresh goes to those it knows. Nothing
that is asked of a binding changes them (`Binding.members_act`). A binding is known from when
it is made (`Binding.Enrols`) until it is let go (`Binding.members_drop`); that it is
destroyed makes no difference.
-/

namespace LiveDocuments

open Model

namespace Model

variable {m n : Model}

theorem OnlyRaises.members_eq (h : m.OnlyRaises n) : n.members = m.members := by
  obtain ⟨_, rfl⟩ := h
  rfl

theorem OnlyAsks.members_eq (h : m.OnlyAsks n) : n.members = m.members := by
  obtain ⟨_, _, _, rfl⟩ := h
  rfl

theorem members_subscribe (m : Model) (c : Components) (sorters : List Sorter)
    (filters : List Filter) (id : BindingId) :
    (m.subscribe c sorters filters id).2.members = m.members := by
  have hquery := (OnlyRaises.query m c sorters filters (some id)).members_eq
  unfold subscribe
  split
  · next heq =>
      rw [heq] at hquery
      exact hquery
  · next cursor n heq =>
      rw [heq] at hquery
      split <;> exact hquery

end Model

/-! ## The part that follows a query -/

namespace QueryCore

variable (core : QueryCore) (m : Model)

theorem members_process : (core.process m).2.2.members = m.members := by
  unfold process
  split
  · rfl
  · exact (onlyRaises_dispatch core.id _ _).members_eq

theorem members_reset :
    (dispatch core.id (core.reset m).2.2 (core.reset m).1).members = m.members :=
  (onlyRaises_dispatch core.id _ _).members_eq

theorem members_run (c : Components) (sorters : List Sorter) (filters : List Filter) :
    (core.run m c sorters filters).2.members = m.members := by
  have hreset := core.members_reset m
  unfold run
  split
  next notifications fresh n heq =>
  have hid : fresh.id = core.id := by
    have hsame := (core.reset_eq m).2.2
    rw [heq] at hsame
    exact hsame
  rw [heq, ← hid] at hreset
  have hsubscribe :=
    (members_subscribe (dispatch fresh.id n notifications) c sorters filters fresh.id).trans
      hreset
  dsimp only
  split
  · next cursor subscription followed hfound =>
      rw [hfound] at hsubscribe
      exact (members_process _ _).trans hsubscribe
  · next e failed hfailed =>
      rw [hfailed] at hsubscribe
      exact (onlyRaises_fail fresh.id failed e).members_eq.trans hsubscribe

theorem members_clear : (core.clear m).2.members = m.members := core.members_reset m

/-- A part that begins to follow a query is known by the number it was given. -/
theorem members_run_create (mode : SyncMode) (c : Components) (sorters : List Sorter)
    (filters : List Filter) :
    ((create m mode).1.run (create m mode).2 c sorters filters).2.members =
      m.members ++ [((create m mode).1.run (create m mode).2 c sorters filters).1.id] := by
  rw [members_run, id_run]
  rfl

end QueryCore

/-! ## What is asked of a binding -/

theorem DocumentList.members_requery (b : DocumentList) (m : Model) :
    (b.requery m).2.members = m.members := by
  unfold requery
  split
  · rfl
  · exact b.core.members_run m b.components b.sorters b.filters

theorem ElementList.members_refresh (b : ElementList) (m : Model) (force : Bool) :
    (b.refresh m force).2.members = m.members := by
  unfold refresh
  split
  · exact b.core.members_run m b.components [] []
  · rfl

namespace ContextBinding

theorem members_requery (b : ContextBinding) (m : Model) :
    (b.requery m).2.members = m.members := by
  have hcomponents := (OnlyAsks.components m b.path b.context).members_eq
  unfold requery
  split
  · next c n heq =>
      rw [heq] at hcomponents
      exact (b.core.members_run n c [] []).trans hcomponents
  · next e n heq =>
      rw [heq] at hcomponents
      exact (b.core.members_clear n).trans hcomponents

theorem members_setContext (b : ContextBinding) (m : Model) (other : Option Context) :
    (b.setContext m other).2.members = m.members := by
  unfold setContext
  split
  · rfl
  · exact (onlyAsks_renewElement _ _ false).members_eq.trans (members_requery _ m)

end ContextBinding

namespace Binding

/-- Whatever is asked of a binding, the model knows the same bindings as before. -/
theorem members_act (m : Model) (action : BindingAction) (b : Binding) :
    (b.act m action).2.members = m.members := by
  cases b with
  | property b =>
      cases action with
      | process => exact (b.onlyAsks_checkUpdate m false).members_eq
      | refresh force => exact (b.onlyAsks_checkUpdate m force).members_eq
      | checkUpdate force => exact (b.onlyAsks_checkUpdate m force).members_eq
      | setContext other => exact (b.onlyAsks_setContext m other).members_eq
      | currentValue =>
          exact (PropertyBinding.onlyAsks_readAt m b.path b.context).members_eq
      | _ => rfl
  | context b =>
      cases action with
      | process => exact b.core.members_process m
      | refresh force => exact (b.onlyAsks_renewElement m force).members_eq
      | announce => exact (b.onlyAsks_renewElement m true).members_eq
      | setContext other => exact b.members_setContext m other
      | _ => rfl
  | list b =>
      cases b with
      | documents b =>
          cases action with
          | process => exact b.core.members_process m
          | refresh force =>
              cases force with
              | true => exact b.members_requery m
              | false => rfl
          | filter filters =>
              exact DocumentList.members_requery { b with filters := filters } m
          | sort sorters =>
              exact DocumentList.members_requery { b with sorters := sorters } m
          | _ => rfl
      | elements b =>
          cases action with
          | process => exact b.core.members_process m
          | refresh force => exact b.members_refresh m force
          | getContexts start length => exact (b.onlyAsks_materialize m).members_eq
          | _ => rfl

theorem members_drop (m : Model) (b : Binding) :
    (b.drop m).members = m.members.filter (· ≠ b.id) := by
  have hdestroy : (b.destroy m).2.members = m.members := b.members_act m .destroy
  rw [drop, leave, hdestroy]

/-- A binding that is made is known after those before it. An attempt that fails changes
nothing in this. -/
def Enrols (m : Model) : Except BindingError Binding × Model → Prop
  | (.ok b, n) => n.members = m.members ++ [b.id]
  | (.error _, n) => n.members = m.members

end Binding

/-! ## Making bindings -/

open Binding

theorem PropertyBinding.enrols (m : Model) (path : String) (context : Option Context) :
    Enrols m ((create m path context).1.map .property, (create m path context).2) := by
  have hcheck := onlyAsks_checkPath m path context
  unfold create
  split
  · next heq =>
      rw [heq] at hcheck
      exact hcheck.members_eq
  · next heq =>
      rw [heq] at hcheck
      obtain ⟨_, _, _, rfl⟩ := hcheck
      exact (onlyAsks_readAt _ path context).members_eq

theorem ContextBinding.enrols (m : Model) (path : String) (context : Option Context) :
    Enrols m ((create m path context).1.map .context, (create m path context).2) := by
  cases hcomponents : m.componentsOf path context with
  | error e =>
      simp only [create, components, hcomponents]
      exact (OnlyRaises.report m e none).members_eq
  | ok c =>
      simp only [create, components, hcomponents]
      exact QueryCore.members_run_create (m.createContext path context).2 .single c [] []

theorem DocumentList.enrols (m : Model) (path : String) (sorters : List Sorter)
    (filters : List Filter) :
    Enrols m ((create m path sorters filters).1.map (.list ∘ .documents),
      (create m path sorters filters).2) := by
  cases hcomponents : m.componentsOf path none with
  | error e =>
      simp only [create, Model.components, hcomponents]
      exact (OnlyRaises.report m e none).members_eq
  | ok c =>
      rw [create_of_componentsOf hcomponents]
      exact QueryCore.members_run_create m _ c sorters filters

theorem ElementList.enrols (m : Model) (path : String) (parent : Context)
    (sorters : List Sorter) (filters : List Filter) :
    Enrols m ((create m path parent sorters filters).1.map (.list ∘ .elements),
      (create m path parent sorters filters).2) := by
  cases hcomponents : m.componentsOf path (some parent) with
  | error e =>
      simp only [create, Model.components, hcomponents]
      exact (OnlyRaises.report m e none).members_eq
  | ok c =>
      simp only [create, Model.components, hcomponents]
      split
      · exact QueryCore.members_run_create m .elements c [] []
      · rfl

end LiveDocuments
