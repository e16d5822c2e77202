import LiveDocuments.Proofs.Binding.Courses

/-!
# Bindings act on their own behalf

Each kind of binding is taken through the course of what is asked of it, and of being made.
Contexts are handed out for places under the contexts a binding was given, for the documents
it lists and for the elements of its array. The store is asked while the model lives, except
by a list of elements, which asks for its document whenever it has a query.
-/

namespace LiveDocuments

open Model

/-- The path of the context that a path denotes under a context: the root if it denotes
nothing. -/
def Model.place (m : Model) (path : String) (context : Option Context) : String :=
  (m.resolve path context).getD "/"

variable {l : Licence} {m n : Model} {k : Nat}

theorem Model.place_eq (h : n.config = m.config) (path : String) (context : Option Context) :
    n.place path context = m.place path context := by
  rw [place, resolve, h]
  rfl

namespace Model.Course

theorem createContext (h : Course l m k n) {path : String} {context : Option Context}
    (hplace : l.hands (m.place path context)) :
    Course l m k (n.createContext path context).2 := by
  rw [← place_eq h.settings_eq.2] at hplace
  exact h.handOut hplace

theorem clear (h : Course l m k n) {core : QueryCore} (hid : core.id = l.binding) :
    Course l m k (core.clear n).2 := h.reset core hid

theorem destroy (h : Course l m k n) (core : QueryCore) : Course l m k (core.destroy n).2 :=
  h.stopFeeds core.sync.destroy.1

end Model.Course

/-! ## Bindings to values -/

namespace PropertyBinding

theorem course_readAt (h : Course l m k n) (hl : l.Covers m) (path : String)
    (context : Option Context) : Course l m k (readAt n path context).2 := by
  have hread := h.getProperty hl path context
  unfold readAt
  split <;> next heq =>
    rw [heq] at hread
    exact hread

theorem course_create (hl : l.Covers m) (hid : m.nextBinding = l.binding) (path : String)
    (context : Option Context) : Course l m 0 (create m path context).2 := by
  have hcheck : Course l m 0 (checkPath m path context).2 ∧
      (checkPath m path context).2.nextBinding = m.nextBinding := by
    unfold checkPath
    split
    · exact ⟨.rest, rfl⟩
    have hcomponents := Course.rest.components (l := l) (m := m) path context
    have hsame : (m.components path context).2.nextBinding = m.nextBinding := by
      unfold components
      split <;> rfl
    split <;> next heq =>
      rw [heq] at hcomponents hsame
      exact ⟨hcomponents, hsame⟩
  unfold create
  split
  · next heq =>
      rw [heq] at hcheck
      exact hcheck.1
  · next n heq =>
      rw [heq] at hcheck
      exact course_readAt (hcheck.1.enrol (hcheck.2.trans hid)) hl path context

theorem course_checkUpdate (b : PropertyBinding) (hl : l.Covers m) (hid : b.id = l.binding)
    (force : Bool) : Course l m 0 (b.checkUpdate m force).2.2 := by
  have hread : Course l m 0 (b.currentValue m).2 := course_readAt .rest hl b.path b.context
  unfold checkUpdate
  split
  · exact .rest
  dsimp only
  split
  · exact hread
  · exact hread.emitOn hid _

theorem course_setContext (b : PropertyBinding) (hl : l.Covers m) (hid : b.id = l.binding)
    (context : Option Context) : Course l m 0 (b.setContext m context).2 := by
  unfold setContext
  split
  · exact .rest
  · exact course_checkUpdate { b with context := context } hl hid false

end PropertyBinding

/-! ## Bindings to documents -/

namespace ContextBinding

theorem course_renewElement (h : Course l m k n) (b : ContextBinding)
    (hid : b.core.id = l.binding) (hplace : l.hands (m.place b.path b.context))
    (force : Bool) : Course l m k (b.renewElement n force).2 := by
  have hcreate := h.createContext hplace
  simp only [renewElement]
  split
  · exact hcreate.emitOn hid _
  · exact hcreate

theorem course_requery (b : ContextBinding) (hl : l.Covers m) (hid : b.core.id = l.binding)
    (hs : b.core.sync.Hands l.hands) (hsound : m.ledger.Sound) :
    Course l m 0 (b.requery m).2 := by
  have hcomponents := Course.rest.components (l := l) (m := m) b.path b.context
  have hledger := (OnlyAsks.components m b.path b.context).ledger_eq
  rw [← hledger] at hsound
  unfold requery
  split
  · next c n heq =>
      rw [heq] at hcomponents hsound
      exact hcomponents.run hl hid hs hsound c [] []
  · next heq =>
      rw [heq] at hcomponents
      exact hcomponents.clear hid

/-- Only the part that follows a query is new after querying, and it belongs to the same
binding. -/
theorem requery_eq (b : ContextBinding) (m : Model) :
    (b.requery m).1 = { b with core := (b.requery m).1.core } ∧
      (b.requery m).1.core.id = b.core.id ∧
      (b.requery m).1.core.sync.mode = b.core.sync.mode := by
  unfold requery
  split
  · next c n _ => exact ⟨rfl, b.core.id_run n c [] [], b.core.mode_run n c [] []⟩
  · next n _ => exact ⟨rfl, (b.core.reset_eq n).2.2, b.core.mode_clear n⟩

theorem course_setContext (b : ContextBinding) (hl : l.Covers m) (hid : b.core.id = l.binding)
    (hs : b.core.sync.Hands l.hands) (hsound : m.ledger.Sound) (other : Option Context)
    (hplace : l.hands (m.place b.path other)) : Course l m 0 (b.setContext m other).2 := by
  have hrequery := course_requery { b with context := other } hl hid hs hsound
  obtain ⟨hfst, hsame, -⟩ := requery_eq { b with context := other } m
  unfold setContext
  split
  · exact .rest
  · refine course_renewElement hrequery _ (hsame.trans hid) ?_ false
    rw [hfst]
    exact hplace

theorem course_create (hl : l.Covers m) (hid : m.nextBinding = l.binding)
    (hsound : m.ledger.Sound) (path : String) (context : Option Context)
    (hplace : l.hands (m.place path context)) :
    Course l m 0 (create m path context).2 := by
  cases hcomponents : m.componentsOf path context with
  | error e =>
      simp only [create, Model.components, hcomponents]
      exact Course.rest.raise _
  | ok c =>
      simp only [create, Model.components, hcomponents]
      have hcreate := Course.rest.createContext hplace
      have hledger := (OnlyAsks.createContext m path context).ledger_eq
      rw [← hledger] at hsound
      have hnumber := (congrArg Ledger.nextBinding hledger).trans hid
      refine (hcreate.enrol hnumber).run hl hnumber (fun base hbase => ?_)
        hsound.registering c [] []
      cases hbase

end ContextBinding

/-! ## Lists of documents -/

namespace DocumentList

theorem course_requery (h : Course l m k n) (hl : l.Covers m) (b : DocumentList)
    (hid : b.core.id = l.binding) (hs : b.core.sync.Hands l.hands) (hsound : n.ledger.Sound) :
    Course l m k (b.requery n).2 := by
  unfold requery
  split
  · exact h
  · exact h.run hl hid hs hsound _ _ _

theorem course_create (hl : l.Covers m) (hid : m.nextBinding = l.binding)
    (hsound : m.ledger.Sound) (path : String) (sorters : List Sorter)
    (filters : List Filter) : Course l m 0 (create m path sorters filters).2 := by
  cases hcomponents : m.componentsOf path none with
  | error e =>
      simp only [create, Model.components, hcomponents]
      exact Course.rest.raise _
  | ok c =>
      rw [create_of_componentsOf hcomponents]
      refine course_requery (Course.rest.enrol hid) hl _ hid ?_ hsound.registering
      intro base hmode id
      obtain rfl := SyncMode.documents.inj hmode
      rw [Synchronizer.documentPath_eq]
      exact hl.documents c.collection id

end DocumentList

/-! ## Lists of elements -/

namespace ElementList

theorem course_contexts (h : Course l m k n) {paths : List String}
    (hpaths : ∀ path ∈ paths, l.hands path) :
    Course l m k { n with contexts := (n.contexts.getOrCreateAll paths).2 } := by
  induction paths generalizing n with
  | nil => exact h
  | cons path rest ih =>
      have hfirst := h.handOut (hpaths path List.mem_cons_self)
      exact ih hfirst fun other hother => hpaths other (List.mem_cons_of_mem path hother)

theorem course_contextsOf (h : Course l m k n) (b : ElementList) (hid : b.core.id = l.binding)
    (hpaths : ∀ index, l.hands (elementPath b.resolved index)) (value : Option Json) :
    Course l m k (b.contextsOf n value).2 := by
  unfold contextsOf
  split
  · refine course_contexts h fun path hpath => ?_
    rcases List.mem_map.mp hpath with ⟨index, _, rfl⟩
    exact hpaths index
  · exact h.emitOn hid _

theorem course_materialize (h : Course l m k n) (b : ElementList)
    (hid : b.core.id = l.binding) (hasks : b.core.cursor.isSome = true → l.asks)
    (hpaths : ∀ index, l.hands (elementPath b.resolved index)) :
    Course l m k (b.materialize n).2 := by
  unfold materialize
  split
  · exact h
  next cursor hcursor =>
    have hfirst := h.first (hasks (hcursor ▸ rfl)) cursor
    split
    · next heq =>
        rw [heq] at hfirst
        exact hfirst.emitOn hid _
    · next heq =>
        rw [heq] at hfirst
        exact hfirst
    · next document o heq =>
        rw [heq] at hfirst
        exact course_contextsOf hfirst b hid hpaths _

theorem course_refresh (b : ElementList) (hl : l.Covers m) (hid : b.core.id = l.binding)
    (hs : b.core.sync.Hands l.hands) (hsound : m.ledger.Sound) (force : Bool) :
    Course l m 0 (b.refresh m force).2 := by
  unfold refresh
  split
  · exact Course.rest.run hl hid hs hsound _ [] []
  · exact Course.rest.emitOn hid _

theorem course_create (hl : l.Covers m) (hid : m.nextBinding = l.binding)
    (hsound : m.ledger.Sound) (path : String) (parent : Context) (sorters : List Sorter)
    (filters : List Filter) : Course l m 0 (create m path parent sorters filters).2 := by
  cases hcomponents : m.componentsOf path (some parent) with
  | error e =>
      simp only [create, Model.components, hcomponents]
      exact Course.rest.raise _
  | ok c =>
      simp only [create, Model.components, hcomponents]
      split
      · refine (Course.rest.enrol hid).run hl hid (fun base hbase => ?_)
          hsound.registering c [] []
        cases hbase
      · exact (Course.rest.enrol hid).emitOn hid _

end ElementList

/-! ## All kinds of bindings -/

namespace Binding

/-- Whether a binding asks the store again without a query of its own: a list of elements
does so for its contexts as long as it has a query. -/
def rereads : BindingAction → Binding → Bool
  | .getContexts _ _, list (.elements b) => b.core.cursor.isSome
  | _, _ => false

/-- How often an action on a binding tells all bindings to read again. -/
def requests (m : Model) : BindingAction → Binding → Nat
  | .process, b => (b.core?.map fun core => core.requests m).getD 0
  | _, _ => 0

/-- The contexts that an action on a binding makes are for paths with the property. -/
def Hands (P : String → Prop) (m : Model) (action : BindingAction) : Binding → Prop
  | property _ => True
  | context b => b.core.sync.Hands P ∧ P (m.place b.path b.context) ∧
      ∀ other, action = .setContext other → P (m.place b.path other)
  | list (.documents b) => b.core.sync.Hands P
  | list (.elements b) => b.core.sync.Hands P ∧
      ∀ index, P (ElementList.elementPath b.resolved index)

theorem course_process {core : QueryCore} (hid : core.id = l.binding)
    (hs : core.sync.Hands l.hands) : Course l m (core.requests m) (core.process m).2.2 := by
  have hprocess := Course.rest.process (m := m) hid hs
  rwa [Nat.zero_add] at hprocess

theorem course_property (b : PropertyBinding) (hl : l.Covers m) (hid : b.id = l.binding)
    (action : BindingAction) : Course l m 0 ((property b).act m action).2 := by
  cases action with
  | process => exact b.course_checkUpdate hl hid false
  | refresh force => exact b.course_checkUpdate hl hid force
  | checkUpdate force => exact b.course_checkUpdate hl hid force
  | setContext other => exact b.course_setContext hl hid other
  | currentValue => exact PropertyBinding.course_readAt .rest hl b.path b.context
  | _ => exact .rest

theorem course_context (b : ContextBinding) (hl : l.Covers m) (hid : b.core.id = l.binding)
    (action : BindingAction) (hhands : (context b).Hands l.hands m action)
    (hsound : m.ledger.Sound) :
    Course l m ((context b).requests m action) ((context b).act m action).2 := by
  obtain ⟨hs, hplace, hother⟩ := hhands
  cases action with
  | process => exact course_process hid hs
  | refresh force => exact ContextBinding.course_renewElement .rest b hid hplace force
  | announce => exact ContextBinding.course_renewElement .rest b hid hplace true
  | setContext other => exact b.course_setContext hl hid hs hsound other (hother other rfl)
  | destroy => exact Course.rest.destroy b.core
  | _ => exact .rest

theorem course_documents (b : DocumentList) (hl : l.Covers m) (hid : b.core.id = l.binding)
    (action : BindingAction) (hs : b.core.sync.Hands l.hands) (hsound : m.ledger.Sound) :
    Course l m ((list (.documents b)).requests m action)
      ((list (.documents b)).act m action).2 := by
  cases action with
  | process => exact course_process hid hs
  | refresh force =>
      cases force with
      | true => exact DocumentList.course_requery .rest hl b hid hs hsound
      | false => exact Course.rest.emitOn hid _
  | filter filters =>
      exact DocumentList.course_requery .rest hl { b with filters := filters } hid hs hsound
  | sort sorters =>
      exact DocumentList.course_requery .rest hl { b with sorters := sorters } hid hs hsound
  | destroy => exact Course.rest.destroy b.core
  | _ => exact .rest

theorem course_elements (b : ElementList) (hl : l.Covers m) (hid : b.core.id = l.binding)
    (action : BindingAction) (hreads : (list (.elements b)).rereads action = true → l.asks)
    (hhands : (list (.elements b)).Hands l.hands m action) (hsound : m.ledger.Sound) :
    Course l m ((list (.elements b)).requests m action)
      ((list (.elements b)).act m action).2 := by
  obtain ⟨hs, hpaths⟩ := hhands
  cases action with
  | process => exact course_process hid hs
  | refresh force => exact b.course_refresh hl hid hs hsound force
  | filter filters => exact Course.rest.emitOn hid _
  | sort sorters => exact Course.rest.emitOn hid _
  | getContexts start length => exact ElementList.course_materialize .rest b hid hreads hpaths
  | destroy => exact Course.rest.destroy b.core
  | _ => exact .rest

/-- Whatever is asked of a binding takes the model through a course on its behalf. -/
theorem course_act (b : Binding) (hl : l.Covers m) (hid : b.id = l.binding)
    (action : BindingAction) (hreads : b.rereads action = true → l.asks)
    (hhands : b.Hands l.hands m action) (hsound : m.ledger.Sound) :
    Course l m (b.requests m action) (b.act m action).2 := by
  cases b with
  | property b =>
      have hnone : (property b).requests m action = 0 := by cases action <;> rfl
      rw [hnone]
      exact course_property b hl hid action
  | context b => exact course_context b hl hid action hhands hsound
  | list b =>
      cases b with
      | documents b => exact course_documents b hl hid action hhands hsound
      | elements b => exact course_elements b hl hid action hreads hhands hsound

theorem course_drop (b : Binding) (hid : b.id = l.binding) : Course l m 0 (b.drop m) := by
  have hdestroy : Course l m 0 (b.destroy m).2 := by
    cases b with
    | property b => exact .rest
    | context b => exact Course.rest.destroy b.core
    | list b =>
        cases b with
        | documents b => exact Course.rest.destroy b.core
        | elements b => exact Course.rest.destroy b.core
  rw [drop, hid]
  exact hdestroy.part

end Binding

/-! ## What becomes of the bindings -/

/-- A property of the parts that follow queries which none of their operations takes away. -/
structure QueryCore.Persists (Q : QueryCore → Prop) : Prop where
  process : ∀ core m, Q core → Q (core.process m).2.1
  run : ∀ core m c sorters filters, Q core → Q (core.run m c sorters filters).1
  clear : ∀ core m, Q core → Q (core.clear m).1
  destroy : ∀ core m, Q core → Q (core.destroy m).1

namespace QueryCore

theorem persists_id (id : BindingId) : Persists fun core => core.id = id where
  process core m h := (core.id_process m).trans h
  run core m c sorters filters h := (core.id_run m c sorters filters).trans h
  clear core m h := (core.reset_eq m).2.2.trans h
  destroy _ _ h := h

theorem persists_mode (mode : SyncMode) : Persists fun core => core.sync.mode = mode where
  process core m h := (core.mode_process m).trans h
  run core m c sorters filters h := (core.mode_run m c sorters filters).trans h
  clear core m h := (core.mode_clear m).trans h
  destroy core _ h := core.sync.mode_destroy.trans h

end QueryCore

theorem ContextBinding.core_setContext {Q : QueryCore → Prop} (hQ : QueryCore.Persists Q)
    (b : ContextBinding) (m : Model) (other : Option Context) (h : Q b.core) :
    Q (b.setContext m other).1.core := by
  unfold setContext
  split
  · exact h
  · rw [core_renewElement]
    unfold requery
    split
    · next c n _ => exact hQ.run b.core n c [] [] h
    · next n _ => exact hQ.clear b.core n h

theorem DocumentList.core_requery {Q : QueryCore → Prop} (hQ : QueryCore.Persists Q)
    (b : DocumentList) (m : Model) (h : Q b.core) : Q (b.requery m).1.core := by
  unfold requery
  split
  · exact h
  · exact hQ.run b.core m b.components b.sorters b.filters h

theorem ElementList.core_refresh {Q : QueryCore → Prop} (hQ : QueryCore.Persists Q)
    (b : ElementList) (m : Model) (force : Bool) (h : Q b.core) :
    Q (b.refresh m force).1.core := by
  unfold refresh
  split
  · exact hQ.run b.core m b.components [] [] h
  · exact h

namespace PropertyBinding

theorem id_checkUpdate (b : PropertyBinding) (m : Model) (force : Bool) :
    (b.checkUpdate m force).2.1.id = b.id := by
  unfold checkUpdate
  split
  · rfl
  dsimp only
  split <;> rfl

theorem id_setContext (b : PropertyBinding) (m : Model) (other : Option Context) :
    (b.setContext m other).1.id = b.id := by
  unfold setContext
  split
  · rfl
  · exact id_checkUpdate { b with context := other } m false

end PropertyBinding

namespace Binding

theorem id_eq_of_core? {b : Binding} {core : QueryCore} (h : b.core? = some core) :
    b.id = core.id := by
  cases b with
  | property b => cases h
  | context b => exact congrArg QueryCore.id (Option.some.inj h)
  | list b => cases b <;> exact congrArg QueryCore.id (Option.some.inj h)

/-- What persists of the part that follows queries persists whatever is asked of the
binding. -/
theorem core?_act {Q : QueryCore → Prop} (hQ : QueryCore.Persists Q) (m : Model)
    (action : BindingAction) {b : Binding} {core : QueryCore} (hcore : b.core? = some core)
    (h : Q core) : ∃ next, (b.act m action).1.core? = some next ∧ Q next := by
  cases b with
  | property b => cases hcore
  | context b =>
      obtain rfl := Option.some.inj hcore
      cases action with
      | process => exact ⟨_, rfl, hQ.process b.core m h⟩
      | refresh force => exact ⟨_, rfl, (b.core_renewElement m force).symm ▸ h⟩
      | announce => exact ⟨_, rfl, (b.core_renewElement m true).symm ▸ h⟩
      | setContext other => exact ⟨_, rfl, b.core_setContext hQ m other h⟩
      | destroy => exact ⟨_, rfl, hQ.destroy b.core m h⟩
      | _ => exact ⟨_, rfl, h⟩
  | list b =>
      cases b with
      | documents b =>
          obtain rfl := Option.some.inj hcore
          cases action with
          | process => exact ⟨_, rfl, hQ.process b.core m h⟩
          | refresh force =>
              cases force with
              | true => exact ⟨_, rfl, b.core_requery hQ m h⟩
              | false => exact ⟨_, rfl, h⟩
          | filter filters =>
              exact ⟨_, rfl, DocumentList.core_requery hQ { b with filters := filters } m h⟩
          | sort sorters =>
              exact ⟨_, rfl, DocumentList.core_requery hQ { b with sorters := sorters } m h⟩
          | destroy => exact ⟨_, rfl, hQ.destroy b.core m h⟩
          | _ => exact ⟨_, rfl, h⟩
      | elements b =>
          obtain rfl := Option.some.inj hcore
          cases action with
          | process => exact ⟨_, rfl, hQ.process b.core m h⟩
          | refresh force => exact ⟨_, rfl, b.core_refresh hQ m force h⟩
          | destroy => exact ⟨_, rfl, hQ.destroy b.core m h⟩
          | _ => exact ⟨_, rfl, h⟩

theorem id_act (m : Model) (action : BindingAction) (b : Binding) :
    (b.act m action).1.id = b.id := by
  cases hcore : b.core? with
  | some core =>
      obtain ⟨next, hnext, hid⟩ := core?_act (QueryCore.persists_id core.id) m action hcore rfl
      rw [id_eq_of_core? hnext, id_eq_of_core? hcore, hid]
  | none =>
      cases b with
      | property b =>
          cases action with
          | process => exact b.id_checkUpdate m false
          | refresh force => exact b.id_checkUpdate m force
          | checkUpdate force => exact b.id_checkUpdate m force
          | setContext other => exact b.id_setContext m other
          | _ => rfl
      | context b => cases hcore
      | list b => cases b <;> cases hcore

end Binding

/-! ## The query of a list of elements -/

namespace QueryCore

theorem query_process (core : QueryCore) (m : Model) :
    (core.process m).2.1.cursor = core.cursor ∧
      (core.process m).2.1.subscription? = core.subscription? := by
  unfold process
  split
  · exact ⟨rfl, rfl⟩
  · refine ⟨rfl, ?_⟩
    rw [QueryCore.subscription?, Synchronizer.subscription?, Synchronizer.phase_applyAll]
    rfl

/-- The part of a binding that follows queries has a cursor exactly while it is
subscribed. -/
def IsAttached (core : QueryCore) : Prop := core.cursor.isSome = core.subscription?.isSome

theorem IsAttached.process {core : QueryCore} (h : core.IsAttached) (m : Model) :
    (core.process m).2.1.IsAttached := by
  rw [IsAttached, (core.query_process m).1, (core.query_process m).2]
  exact h

theorem isAttached_run {core : QueryCore} (h : core.isDestroyed = false) (m : Model)
    (c : Components) (sorters : List Sorter) (filters : List Filter) :
    (core.run m c sorters filters).1.IsAttached := by
  rw [run_of_inUse h]
  split
  · next cursor subscription followed _ =>
      have hattached : QueryCore.IsAttached
          ⟨core.id, ⟨core.sync.mode, .subscribed subscription, []⟩, some cursor⟩ := rfl
      exact hattached.process _
  · exact rfl

theorem isAttached_destroy (core : QueryCore) (m : Model) :
    (core.destroy m).1.IsAttached := by
  obtain ⟨id, ⟨mode, phase, contexts⟩, cursor⟩ := core
  cases phase <;> rfl

end QueryCore

namespace Binding

/-- A list of elements has a query to ask again exactly while it is subscribed. -/
def IsAttached : Binding → Prop
  | list (.elements b) => b.core.IsAttached
  | _ => True

theorem IsAttached.act {b : Binding} (h : b.IsAttached) (m : Model) (action : BindingAction) :
    (b.act m action).1.IsAttached := by
  cases b with
  | property b => cases action <;> trivial
  | context b => cases action <;> trivial
  | list b =>
      cases b with
      | documents b => cases action <;> trivial
      | elements b =>
          have hcore : b.core.IsAttached := h
          cases action with
          | process => exact hcore.process m
          | refresh force =>
              show (b.refresh m force).1.core.IsAttached
              unfold ElementList.refresh
              split
              · next hforced =>
                  simp only [Bool.and_eq_true, Bool.not_eq_true'] at hforced
                  exact QueryCore.isAttached_run hforced.2 m b.components [] []
              · exact hcore
          | destroy => exact b.core.isAttached_destroy m
          | _ => exact hcore

end Binding

theorem ElementList.isAttached_create {path : String} {parent : Context}
    {sorters : List Sorter} {filters : List Filter} {b : ElementList}
    (h : ElementList.create m path parent sorters filters = (.ok b, n)) :
    b.core.IsAttached := by
  unfold create at h
  split at h
  · cases h
  next c o _ =>
    dsimp only at h
    split at h
    · cases h
      exact QueryCore.isAttached_run rfl _ c [] []
    · cases h
      rfl

end LiveDocuments
