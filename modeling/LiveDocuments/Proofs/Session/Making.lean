import LiveDocuments.Proofs.Session.Courses

/-!
# Making bindings

A binding is made unless its path is at fault, whatever state the model and its store are in,
and an attempt that fails leaves everything as it was but for one event on the model
(`Session.factories_bind_or_leave`). A binding to a value is more lenient than the others: it
takes lookups and paths without a place as they are.
-/

namespace LiveDocuments

open Model

namespace Model

/-- What is wrong with a path under a context. -/
def faultAt? (m : Model) (path : String) (context : Option Context) : Option BindingError :=
  match m.componentsOf path context with
  | .ok _ => none
  | .error e => some e

/-- What is wrong with the path of a value: nothing, if it is a lookup or has no place. -/
def valueFaultAt? (m : Model) (path : String) (context : Option Context) : Option BindingError :=
  if path.toList.head? = some '?' ∨ (m.resolve path context).isNone then none
  else m.faultAt? path context

/-- A new binding to a path was made, or nothing happened but that the fault of the path was
told on the model. -/
def MakesOrLeaves (m : Model) (fault? : Option BindingError) (path : String)
    (context : Option Context) : Except BindingError Binding × Model → Prop
  | (.ok b, _) => fault? = none ∧ b.id = m.nextBinding ∧ b.path = path ∧
      b.context? = context ∧ b.isDestroyed = false
  | (.error e, n) => fault? = some e ∧ e.IsPathFault ∧
      n = m.emit (.model (.parseError e.message))

variable {m : Model} {path : String} {context : Option Context} {e : BindingError}

theorem makesOrLeaves_error (h : m.componentsOf path context = .error e) :
    m.MakesOrLeaves (m.faultAt? path context) path context
      (.error e, m.emit (.model (.parseError e.message))) := by
  refine ⟨?_, isPathFault_of_componentsOf h, rfl⟩
  rw [faultAt?, h]

theorem faultAt?_of_ok {c : Components} (h : m.componentsOf path context = .ok c) :
    m.faultAt? path context = none := by
  rw [faultAt?, h]

end Model

/-! ## Kinds of bindings -/

/-- A binding to a value is made unless its path has a place and is at fault there. -/
theorem PropertyBinding.makesOrLeaves (m : Model) (path : String) (context : Option Context) :
    m.MakesOrLeaves (m.valueFaultAt? path context) path context
      ((create m path context).1.map .property, (create m path context).2) := by
  by_cases hplace : path.toList.head? = some '?' ∨ (m.resolve path context).isNone
  · simp only [create, checkPath, valueFaultAt?, if_pos hplace]
    exact ⟨rfl, rfl, rfl, rfl, rfl⟩
  · cases hcomponents : m.componentsOf path context with
    | error e =>
        simp only [create, checkPath, valueFaultAt?, if_neg hplace, components, hcomponents]
        exact makesOrLeaves_error hcomponents
    | ok c =>
        simp only [create, checkPath, valueFaultAt?, if_neg hplace, components, hcomponents]
        exact ⟨faultAt?_of_ok hcomponents, rfl, rfl, rfl, rfl⟩

theorem ContextBinding.makesOrLeaves (m : Model) (path : String) (context : Option Context) :
    m.MakesOrLeaves (m.faultAt? path context) path context
      ((create m path context).1.map .context, (create m path context).2) := by
  cases hcomponents : m.componentsOf path context with
  | error e =>
      simp only [create, components, hcomponents]
      exact makesOrLeaves_error hcomponents
  | ok c =>
      simp only [create, components, hcomponents]
      have hnumber := congrArg Ledger.nextBinding
        (OnlyAsks.createContext m path context).ledger_eq
      exact ⟨faultAt?_of_ok hcomponents, (QueryCore.id_run _ _ c [] []).trans hnumber, rfl, rfl,
        QueryCore.isDestroyed_run _ _ c [] []⟩

theorem DocumentList.makesOrLeaves (m : Model) (path : String) (sorters : List Sorter)
    (filters : List Filter) :
    m.MakesOrLeaves (m.faultAt? path none) path none
      ((create m path sorters filters).1.map (.list ∘ .documents),
        (create m path sorters filters).2) := by
  cases hcomponents : m.componentsOf path none with
  | error e =>
      simp only [create, Model.components, hcomponents]
      exact makesOrLeaves_error hcomponents
  | ok c =>
      rw [create_of_componentsOf hcomponents]
      exact ⟨faultAt?_of_ok hcomponents, QueryCore.id_run _ _ c sorters filters, rfl, rfl,
        QueryCore.isDestroyed_run _ _ c sorters filters⟩

theorem ElementList.makesOrLeaves (m : Model) (path : String) (parent : Context)
    (sorters : List Sorter) (filters : List Filter) :
    m.MakesOrLeaves (m.faultAt? path (some parent)) path (some parent)
      ((create m path parent sorters filters).1.map (.list ∘ .elements),
        (create m path parent sorters filters).2) := by
  cases hcomponents : m.componentsOf path (some parent) with
  | error e =>
      simp only [create, Model.components, hcomponents]
      exact makesOrLeaves_error hcomponents
  | ok c =>
      simp only [create, Model.components, hcomponents]
      split
      · exact ⟨faultAt?_of_ok hcomponents, QueryCore.id_run _ _ c [] [], rfl, rfl,
          QueryCore.isDestroyed_run _ _ c [] []⟩
      · exact ⟨faultAt?_of_ok hcomponents, rfl, rfl, rfl, rfl⟩

namespace Session

/-- A new binding to a path was added, or nothing happened but that the fault of the path was
told on the model. -/
def BindsOrLeaves (s : Session) (fault? : Option BindingError) (path : String)
    (context : Option Context) : Except BindingError BindingId × Session → Prop
  | (.ok id, t) => fault? = none ∧ id = s.model.nextBinding ∧
      ∃ b : Binding, t.bindings = s.bindings ++ [(id, b)] ∧ b.id = id ∧ b.path = path ∧
        b.context? = context ∧ b.isDestroyed = false
  | (.error e, t) => fault? = some e ∧ e.IsPathFault ∧
      t = s.withModel (s.model.emit (.model (.parseError e.message)))

theorem bindsOrLeaves_bind {s : Session} {fault? : Option BindingError} {path : String}
    {context : Option Context} {made : Except BindingError Binding × Model}
    (h : s.model.MakesOrLeaves fault? path context made) :
    s.BindsOrLeaves fault? path context (s.bind made) := by
  obtain ⟨result, n⟩ := made
  cases result with
  | error e =>
      obtain ⟨hfault, hpath, rfl⟩ := h
      exact ⟨hfault, hpath, rfl⟩
  | ok b =>
      obtain ⟨hfault, hid, hplace⟩ := h
      exact ⟨hfault, hid, b, rfl, rfl, hplace⟩

/-- In every state of a session, whatever is asked for at whatever path: if the path is at fault,
the fault is the answer, and the session stays as it is but for one event on the model that tells
of it. Otherwise a binding in use to that path is added. Nothing else makes an attempt fail. -/
theorem factories_bind_or_leave (s : Session) (path : String) (context parent : Option Context)
    (sorters : List Sorter) (filters : List Filter) :
    s.BindsOrLeaves (s.model.valueFaultAt? path context) path context
        (s.bindProperty path context) ∧
      s.BindsOrLeaves (s.model.faultAt? path context) path context
        (s.bindContext path context) ∧
      s.BindsOrLeaves (s.model.faultAt? path parent) path parent
        (s.bindList path parent sorters filters) := by
  refine ⟨bindsOrLeaves_bind (PropertyBinding.makesOrLeaves s.model path context),
    bindsOrLeaves_bind (ContextBinding.makesOrLeaves s.model path context), ?_⟩
  cases parent with
  | none =>
      have hmade := DocumentList.makesOrLeaves s.model path sorters filters
      rw [← Binding.map_map_list] at hmade
      exact bindsOrLeaves_bind hmade
  | some parent =>
      have hmade := ElementList.makesOrLeaves s.model path parent sorters filters
      rw [← Binding.map_map_list] at hmade
      exact bindsOrLeaves_bind hmade

end Session

end LiveDocuments
