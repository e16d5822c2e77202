import LiveDocuments.Proofs.Binding.Acting
import LiveDocuments.Proofs.Selector.ById

/-!
# What destroyed bindings still raise

A binding that was destroyed follows nothing any more, but it can still be asked. What it
raises on itself then is its echo (`Binding.echo`): a binding to a value raises nothing, a
binding to a document may announce its element or a query that failed, a list of documents
passes on a refresh that is not forced, and a list of elements answers refreshes and refuses
to sort and filter as if it were in use.
-/

namespace LiveDocuments

open Model

/-! ## Queries that come to nothing -/

/-- What names a document or a whole collection can be asked for without complaint. -/
theorem compileQuery_nil (c : Components) (limit : Nat) :
    (compileQuery c [] [] limit).diagnostics = [] ∧
      ∃ selector, Selector.compile (compileQuery c [] [] limit).value.selector = .ok selector := by
  unfold compileQuery selectorFor
  cases c.documentId with
  | none => exact ⟨rfl, _, rfl⟩
  | some id => exact ⟨rfl, _, compile_single_id id⟩

namespace Model

theorem heardOn_of_eq {m n : Model} (h : n = m) (id : BindingId) :
    n.heardOn id = m.heardOn id ++ [] := by
  rw [h, List.append_nil]

/-- What a binding hears if the documents it wants to follow are refused. The end of the
model is not told. -/
def refusals (m : Model) (c : Components) : List BindingEvent :=
  if m.destroyed then []
  else if m.store.hasCollection c.collection then
    match m.backend.observeRefusal with
    | none => []
    | some reason => [.requestFailed (BindingError.store (Backend.refusal reason)).message]
  else [.parseError (BindingError.unknownCollection c.collection).message]

end Model

namespace QueryCore

variable {core : QueryCore}

theorem process_of_isDestroyed (h : core.isDestroyed = true) (m : Model) :
    core.process m = (0, core, m) := by
  obtain ⟨id, ⟨mode, phase, contexts⟩, cursor⟩ := core
  cases phase with
  | destroyed => rfl
  | _ => cases h

theorem destroy_of_isDestroyed (h : core.isDestroyed = true) (m : Model) :
    (core.destroy m).2 = m := by
  obtain ⟨id, ⟨mode, phase, contexts⟩, cursor⟩ := core
  cases phase with
  | destroyed => rfl
  | _ => cases h

theorem IsAttached.cursor_eq_none (hattached : core.IsAttached) (h : core.isDestroyed = true) :
    core.cursor = none := by
  cases hsubscription : core.subscription? with
  | none =>
      rw [IsAttached, hsubscription] at hattached
      simpa using hattached
  | some subscription =>
      rw [isDestroyed_of_subscription? hsubscription] at h
      cases h

theorem clear_of_isDestroyed (h : core.isDestroyed = true) (m : Model) :
    (core.clear m).2 = m := by
  obtain ⟨id, ⟨mode, phase, contexts⟩, cursor⟩ := core
  cases phase with
  | destroyed => rfl
  | _ => cases h

theorem run_of_isDestroyed (h : core.isDestroyed = true) (m : Model) (c : Components)
    (sorters : List Sorter) (filters : List Filter) :
    (core.run m c sorters filters).2 =
      match m.subscribe c sorters filters core.id with
      | (.ok (_, subscription), n) => n.stopFeeds [subscription.feed]
      | (.error e, n) => fail core.id n e := by
  obtain ⟨id, ⟨mode, phase, contexts⟩, cursor⟩ := core
  cases phase with
  | destroyed =>
      have hreset : QueryCore.reset ⟨id, ⟨mode, .destroyed, contexts⟩, cursor⟩ m =
          ([], ⟨id, ⟨mode, .destroyed, contexts⟩, none⟩, m) := rfl
      cases hsubscribe : m.subscribe c sorters filters id with
      | mk result n =>
          cases result with
          | error e => simp only [run, hreset, dispatch, List.foldl_nil, hsubscribe]
          | ok found =>
              simp only [run, hreset, dispatch, List.foldl_nil, hsubscribe]
              rfl
  | _ => cases h

end QueryCore

/-! ## What is heard of a query in vain -/

/-- So much more was heard on a binding, and neither contexts nor settings have changed. -/
structure Model.Hears (id : BindingId) (events : List BindingEvent) (m n : Model) : Prop where
  heard : n.heardOn id = m.heardOn id ++ events
  contexts : n.contexts = m.contexts
  config : n.config = m.config

theorem Model.Hears.rest (id : BindingId) (m : Model) : Hears id [] m m :=
  ⟨(List.append_nil _).symm, rfl, rfl⟩

/-- Of a query that names a document or a whole collection nothing but its refusal is
heard. -/
theorem QueryCore.hears_run {core : QueryCore} (h : core.isDestroyed = true) (m : Model)
    (c : Components) : Hears core.id (m.refusals c) m (core.run m c [] []).2 := by
  obtain ⟨hdiagnostics, selector, hcompile⟩ := compileQuery_nil c m.config.sizeLimit
  rw [core.run_of_isDestroyed h]
  cases halive : m.destroyed with
  | true =>
      simp only [subscribe, query, refusals, if_pos halive]
      exact .rest core.id m
  | false =>
      have hready : ¬ m.destroyed = true := by
        rw [halive]
        exact Bool.false_ne_true
      cases hcollection : m.store.hasCollection c.collection with
      | false =>
          simp only [subscribe, query, refusals, if_neg hready, hcollection,
            Bool.false_eq_true, if_false]
          have hraised := (m.emit (.model (.parseError
            (BindingError.unknownCollection c.collection).message))).heardOn_emitOn_self core.id
              (.parseError (BindingError.unknownCollection c.collection).message)
          rw [heardOn_emit_model] at hraised
          exact ⟨hraised, rfl, rfl⟩
      | true =>
          simp only [subscribe, query, refusals, if_neg hready, if_pos hcollection,
            hdiagnostics, reportAll, List.foldl_nil, Backend.observe]
          cases hwilling : m.backend.observeRefusal with
          | some reason =>
              exact ⟨heardOn_emitOn_self _ core.id _, rfl, rfl⟩
          | none =>
              have hobserve : ∃ feed s, m.backend.store.observe c.collection
                  (compileQuery c [] [] m.config.sizeLimit).value = .ok (feed, s) := by
                simp only [Store.observe, hcompile]
                exact ⟨_, _, rfl⟩
              obtain ⟨feed, s, hopened⟩ := hobserve
              simp only [hopened]
              exact ⟨(List.append_nil _).symm, rfl, rfl⟩

/-! ## Kinds of bindings -/

/-- A destroyed binding to a value reads nothing of its own accord, and what it is asked to
read is not told on it. -/
theorem PropertyBinding.heardOn_act {b : PropertyBinding} (h : b.destroyed = true) (m : Model)
    (request : BindingAction) :
    ((Binding.property b).act m request).2.heardOn b.id = m.heardOn b.id := by
  have hcheck : ∀ (other : PropertyBinding) (force : Bool), other.destroyed = true →
      (other.checkUpdate m force).2.2 = m := by
    intro other force hother
    rw [checkUpdate, if_pos hother]
  cases request with
  | process => exact congrArg (Model.heardOn · b.id) (hcheck b false h)
  | refresh force => exact congrArg (Model.heardOn · b.id) (hcheck b force h)
  | checkUpdate force => exact congrArg (Model.heardOn · b.id) (hcheck b force h)
  | setContext other =>
      refine congrArg (Model.heardOn · b.id) (?_ : (b.setContext m other).2 = m)
      unfold setContext
      split
      · rfl
      · exact hcheck { b with context := other } false h
  | currentValue =>
      have hcourse := PropertyBinding.course_readAt (Course.rest (m := m))
        (l := ⟨b.id + 1, True, fun _ => True⟩) ⟨fun _ => trivial, fun _ _ => trivial⟩
        b.path b.context
      have hheard := hcourse.heardOn_eq (Nat.ne_of_lt (Nat.lt_succ_self b.id))
      rwa [Nat.zero_mul, List.replicate_zero, List.append_nil] at hheard
  | _ => rfl

namespace ContextBinding

/-- What a binding to a document announces when its element is made again. -/
def renewal (b : ContextBinding) (m : Model) (force : Bool) : List BindingEvent :=
  if force || !(m.createContext b.path b.context).1.isSame b.element then [.change .change]
  else []

/-- What a destroyed binding to a document hears of following the path once more. -/
def refusals (b : ContextBinding) (m : Model) : List BindingEvent :=
  match m.componentsOf b.path b.context with
  | .ok c => m.refusals c
  | .error _ => []

theorem heardOn_renewElement (b : ContextBinding) (m : Model) (force : Bool) :
    (b.renewElement m force).2.heardOn b.core.id = m.heardOn b.core.id ++ b.renewal m force := by
  simp only [renewElement, renewal]
  split
  · exact heardOn_emitOn_self _ b.core.id _
  · exact (List.append_nil _).symm

theorem hears_requery {b : ContextBinding} (h : b.core.isDestroyed = true) (m : Model) :
    Hears b.core.id (b.refusals m) m (b.requery m).2 := by
  cases hcomponents : m.componentsOf b.path b.context with
  | error e =>
      simp only [requery, refusals, components, hcomponents]
      rw [QueryCore.clear_of_isDestroyed h]
      exact ⟨by rw [List.append_nil]; exact m.heardOn_emit_model _ b.core.id, rfl, rfl⟩
  | ok c =>
      simp only [requery, refusals, components, hcomponents]
      exact QueryCore.hears_run h m c

theorem heardOn_setContext {b : ContextBinding} (h : b.core.isDestroyed = true) (m : Model)
    (other : Option Context) :
    (b.setContext m other).2.heardOn b.core.id = m.heardOn b.core.id ++
      if Context.areSame b.context other then []
      else refusals { b with context := other } m ++
        renewal { b with context := other } m false := by
  unfold setContext
  split
  · exact (List.append_nil _).symm
  · obtain ⟨hfst, hid, -⟩ := requery_eq { b with context := other } m
    have hrequery := hears_requery (b := { b with context := other }) h m
    have hrenew := heardOn_renewElement (requery { b with context := other } m).1
      (requery { b with context := other } m).2 false
    have hrenewal : renewal (requery { b with context := other } m).1
        (requery { b with context := other } m).2 false =
          renewal { b with context := other } m false := by
      rw [hfst]
      simp only [renewal, createContext, contextFor, resolve, hrequery.contexts,
        hrequery.config]
      rfl
    rw [hid, hrenewal, hrequery.heard, List.append_assoc] at hrenew
    exact hrenew

end ContextBinding

namespace Binding

/-- What a destroyed binding raises on itself when it is asked. -/
def echo (m : Model) : BindingAction → Binding → List BindingEvent
  | .refresh force, context b => b.renewal m force
  | .announce, context b => b.renewal m true
  | .setContext other, context b =>
      if Context.areSame b.context other then []
      else ContextBinding.refusals { b with context := other } m ++
        ContextBinding.renewal { b with context := other } m false
  | .refresh false, list (.documents _) => [.change .refresh]
  | .refresh _, list (.elements _) => [.change .refresh]
  | .filter _, list (.elements _) => [.requestFailed BindingError.arrayQuery.message]
  | .sort _, list (.elements _) => [.requestFailed BindingError.arrayQuery.message]
  | _, _ => []

theorem heardOn_context {b : ContextBinding} (h : b.core.isDestroyed = true) (m : Model)
    (request : BindingAction) : ((context b).act m request).2.heardOn b.core.id =
      m.heardOn b.core.id ++ (context b).echo m request := by
  cases request with
  | process =>
      have hprocess := QueryCore.process_of_isDestroyed h m
      exact heardOn_of_eq (congrArg (fun step => step.2.2) hprocess) b.core.id
  | refresh force => exact b.heardOn_renewElement m force
  | announce => exact b.heardOn_renewElement m true
  | setContext other => exact ContextBinding.heardOn_setContext h m other
  | destroy => exact heardOn_of_eq (QueryCore.destroy_of_isDestroyed h m) b.core.id
  | _ => exact (List.append_nil _).symm

theorem heardOn_documents {b : DocumentList} (h : b.core.isDestroyed = true) (m : Model)
    (request : BindingAction) : ((list (.documents b)).act m request).2.heardOn b.core.id =
      m.heardOn b.core.id ++ (list (.documents b)).echo m request := by
  have hrequery : ∀ other : DocumentList, other.core = b.core →
      (other.requery m).2.heardOn b.core.id = m.heardOn b.core.id ++ [] := by
    intro other hother
    rw [← hother] at h
    refine heardOn_of_eq ?_ b.core.id
    rw [DocumentList.requery, if_pos h]
  cases request with
  | process =>
      have hprocess := QueryCore.process_of_isDestroyed h m
      exact heardOn_of_eq (congrArg (fun step => step.2.2) hprocess) b.core.id
  | refresh force =>
      cases force with
      | true => exact hrequery b rfl
      | false => exact heardOn_emitOn_self m b.core.id _
  | filter filters => exact hrequery { b with filters := filters } rfl
  | sort sorters => exact hrequery { b with sorters := sorters } rfl
  | destroy => exact heardOn_of_eq (QueryCore.destroy_of_isDestroyed h m) b.core.id
  | _ => exact (List.append_nil _).symm

theorem heardOn_elements {b : ElementList} (h : b.core.isDestroyed = true)
    (hattached : b.core.IsAttached) (m : Model) (request : BindingAction) :
    ((list (.elements b)).act m request).2.heardOn b.core.id =
      m.heardOn b.core.id ++ (list (.elements b)).echo m request := by
  cases request with
  | process =>
      have hprocess := QueryCore.process_of_isDestroyed h m
      exact heardOn_of_eq (congrArg (fun step => step.2.2) hprocess) b.core.id
  | refresh force =>
      have hrefresh : b.refresh m force = (b, m.emitOn b.core.id (.change .refresh)) := by
        simp [ElementList.refresh, h]
      exact (congrArg (fun step => step.2.heardOn b.core.id) hrefresh).trans
        (heardOn_emitOn_self m b.core.id _)
  | filter filters => exact heardOn_emitOn_self m b.core.id _
  | sort sorters => exact heardOn_emitOn_self m b.core.id _
  | getContexts start length =>
      have hmaterialize : (b.materialize m).2 = m := by
        rw [ElementList.materialize, hattached.cursor_eq_none h]
      exact heardOn_of_eq hmaterialize b.core.id
  | destroy => exact heardOn_of_eq (QueryCore.destroy_of_isDestroyed h m) b.core.id
  | _ => exact (List.append_nil _).symm

/-- What is heard on a destroyed binding when it is asked is its echo. -/
theorem heardOn_act {b : Binding} (h : b.isDestroyed = true) (hattached : b.IsAttached)
    (m : Model) (request : BindingAction) :
    (b.act m request).2.heardOn b.id = m.heardOn b.id ++ b.echo m request := by
  cases b with
  | property b =>
      have hnone : (property b).echo m request = [] := by
        cases request with
        | refresh force => cases force <;> rfl
        | _ => rfl
      rw [hnone, List.append_nil]
      exact PropertyBinding.heardOn_act h m request
  | context b => exact heardOn_context h m request
  | list b =>
      cases b with
      | documents b => exact heardOn_documents h m request
      | elements b => exact heardOn_elements h hattached m request

end Binding

end LiveDocuments
