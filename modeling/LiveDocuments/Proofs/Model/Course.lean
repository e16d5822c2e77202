import LiveDocuments.Model.Reading
import LiveDocuments.Proofs.Model.Basic

/-!
# Courses of a model

Whatever is asked of a model or of a binding on it, the model takes a course of small steps:
it raises an event, tells a binding something, hands out a context, asks the store, and so
on. Who acts and what it may do on the way is told by a `Licence`, and `Model.Course` counts
how often all bindings are told to read again.

What a course does to the count of questions to the store, to the contexts held and to what
is heard on other bindings is told here once, and so are the courses of the operations of a
model.
-/

namespace LiveDocuments

/-- Who acts on a model, whether it may ask collections for documents or feeds, and for which
paths it may hand out contexts. -/
structure Licence where
  binding : BindingId
  asks : Prop
  hands : String → Prop

/-! ## What is heard on a binding -/

/-- What the listeners of a binding hear of an event that was raised. -/
def Emission.heardBy? (id : BindingId) : Emission → Option BindingEvent
  | .model _ => none
  | .binding owner event => if owner = id then some event else none

namespace Model

/-- The events raised on a binding so far. -/
def heardOn (m : Model) (id : BindingId) : List BindingEvent :=
  m.emitted.filterMap (Emission.heardBy? id)

@[simp] theorem heardOn_emit_model (m : Model) (event : ModelEvent) (id : BindingId) :
    (m.emit (.model event)).heardOn id = m.heardOn id := by
  simp [heardOn, emit, Emission.heardBy?]

@[simp] theorem heardOn_emitOn_self (m : Model) (id : BindingId) (event : BindingEvent) :
    (m.emitOn id event).heardOn id = m.heardOn id ++ [event] := by
  simp [heardOn, emitOn, emit, Emission.heardBy?]

theorem heardOn_emitOn_of_ne (m : Model) {id owner : BindingId} (h : id ≠ owner)
    (event : BindingEvent) : (m.emitOn owner event).heardOn id = m.heardOn id := by
  simp [heardOn, emitOn, emit, Emission.heardBy?, h.symm]

theorem heardOn_foldl_emitOn (m : Model) (owners : List BindingId) (event : BindingEvent)
    (id : BindingId) :
    (owners.foldl (fun m owner => m.emitOn owner event) m).heardOn id =
      m.heardOn id ++ List.replicate (owners.count id) event := by
  induction owners generalizing m with
  | nil => simp
  | cons owner rest ih =>
      rw [List.foldl_cons, ih]
      by_cases h : owner = id
      · subst h
        rw [heardOn_emitOn_self, List.count_cons_self, List.append_assoc,
          List.replicate_succ]
        rfl
      · rw [heardOn_emitOn_of_ne m (Ne.symm h), List.count_cons_of_ne h]

theorem refresh_eq (m : Model) : m.refresh = { m with emitted := m.refresh.emitted } := by
  obtain ⟨emitted, heq⟩ := OnlyRaises.refresh m
  rw [heq]

theorem heardOn_refresh (m : Model) (id : BindingId) :
    m.refresh.heardOn id =
      m.heardOn id ++ List.replicate (m.members.count id) (.change .refresh) := by
  rw [refresh, heardOn_emit_model, heardOn_foldl_emitOn]

/-! ## Courses -/

/-- The second model is reached from the first by steps that the licence allows. The number
counts the refreshes of the model among them. -/
inductive Course (l : Licence) (m : Model) : Nat → Model → Prop where
  | rest : Course l m 0 m
  | raise {k : Nat} {n : Model} (event : ModelEvent) (h : Course l m k n) :
      Course l m k (n.emit (.model event))
  | tell {k : Nat} {n : Model} (event : BindingEvent) (h : Course l m k n) :
      Course l m k (n.emitOn l.binding event)
  | refresh {k : Nat} {n : Model} (h : Course l m k n) : Course l m (k + 1) n.refresh
  | handOut {k : Nat} {n : Model} {path : String} (hpath : l.hands path)
      (h : Course l m k n) : Course l m k (n.contextFor path).2
  | ask {k : Nat} {n : Model} (hasks : l.asks) (h : Course l m k n) :
      Course l m k { n with backend := { n.backend with asked := n.backend.asked + 1 } }
  | settle {k : Nat} {n : Model} (backend : Backend) (feeds : List FeedId)
      (hasked : backend.asked = n.backend.asked) (h : Course l m k n) :
      Course l m k { n with backend := backend, feeds := feeds }
  | enrol {k : Nat} {n : Model} (hid : n.nextBinding = l.binding) (h : Course l m k n) :
      Course l m k n.register.2
  | part {k : Nat} {n : Model} (h : Course l m k n) : Course l m k (n.leave l.binding)

/-- Every binding that refreshes reach has a number of its own that was given out. -/
structure Enrolled (m : Model) : Prop where
  distinct : m.members.Nodup
  numbered : ∀ id ∈ m.members, id < m.nextBinding

namespace Course

variable {l : Licence} {m n o : Model} {j k : Nat}

theorem trans (hmn : Course l m j n) (hno : Course l n k o) : Course l m (j + k) o := by
  induction hno with
  | rest => exact hmn
  | raise event _ ih => exact ih.raise event
  | tell event _ ih => exact ih.tell event
  | refresh _ ih => exact ih.refresh
  | handOut hpath _ ih => exact ih.handOut hpath
  | ask hasks _ ih => exact ih.ask hasks
  | settle backend feeds hasked _ ih => exact ih.settle backend feeds hasked
  | enrol hid _ ih => exact ih.enrol hid
  | part _ ih => exact ih.part

theorem settings_eq (h : Course l m k n) : n.destroyed = m.destroyed ∧ n.config = m.config := by
  induction h with
  | rest => exact ⟨rfl, rfl⟩
  | refresh _ ih =>
      rw [refresh_eq]
      exact ih
  | raise _ _ ih | tell _ _ ih | handOut _ _ ih | ask _ _ ih | settle _ _ _ _ ih
  | enrol _ _ ih | part _ ih => exact ih

theorem asked_eq (h : Course l m k n) (hasks : ¬ l.asks) :
    n.backend.asked = m.backend.asked := by
  induction h with
  | rest => rfl
  | refresh _ ih =>
      rw [refresh_eq]
      exact ih
  | ask hmay _ _ => exact absurd hmay hasks
  | settle _ _ hasked _ ih => exact hasked.trans ih
  | raise _ _ ih | tell _ _ ih | handOut _ _ ih | enrol _ _ ih | part _ ih => exact ih

theorem count_members_eq (h : Course l m k n) {id : BindingId} (hid : id ≠ l.binding) :
    n.members.count id = m.members.count id := by
  induction h with
  | rest => rfl
  | refresh _ ih =>
      rw [refresh_eq]
      exact ih
  | @enrol _ n hnumber _ ih =>
      have hother : [n.nextBinding].count id = 0 := by
        rw [hnumber]
        exact List.count_eq_zero.mpr (by simpa using hid)
      rw [register, List.count_append, hother, Nat.add_zero]
      exact ih
  | part _ ih => exact (List.count_filter (by simpa using hid)).trans ih
  | raise _ _ ih | tell _ _ ih | handOut _ _ ih | ask _ _ ih | settle _ _ _ _ ih => exact ih

/-- On other bindings nothing is heard but the refreshes, and those only by members. -/
theorem heardOn_eq (h : Course l m k n) {id : BindingId} (hid : id ≠ l.binding) :
    n.heardOn id =
      m.heardOn id ++ List.replicate (k * m.members.count id) (.change .refresh) := by
  induction h with
  | rest => simp
  | @refresh k n h ih =>
      rw [heardOn_refresh, ih, h.count_members_eq hid, List.append_assoc,
        List.replicate_append_replicate, Nat.succ_mul]
  | raise event _ ih => rw [heardOn_emit_model, ih]
  | tell event _ ih => rw [heardOn_emitOn_of_ne _ hid, ih]
  | handOut _ _ ih | ask _ _ ih | settle _ _ _ _ ih | enrol _ _ ih | part _ ih => exact ih

theorem nextBinding_le (h : Course l m k n) : m.nextBinding ≤ n.nextBinding := by
  induction h with
  | rest => exact Nat.le_refl _
  | refresh _ ih =>
      rw [refresh_eq]
      exact ih
  | enrol _ _ ih => exact Nat.le_succ_of_le ih
  | raise _ _ ih | tell _ _ ih | handOut _ _ ih | ask _ _ ih | settle _ _ _ _ ih | part _ ih =>
      exact ih

theorem mem_contexts (h : Course l m k n) {context : Context}
    (hcontext : context ∈ n.contexts.entries) :
    context ∈ m.contexts.entries ∨ l.hands context.path := by
  induction h with
  | rest => exact .inl hcontext
  | refresh _ ih =>
      rw [refresh_eq] at hcontext
      exact ih hcontext
  | handOut hpath _ ih =>
      rcases ContextCache.mem_getOrCreate hcontext with hold | hnew
      · exact ih hold
      · exact .inr (hnew ▸ hpath)
  | raise _ _ ih | tell _ _ ih | ask _ _ ih | settle _ _ _ _ ih | enrol _ _ ih | part _ ih =>
      exact ih hcontext

theorem nodup_contexts (h : Course l m k n) (hm : (m.contexts.entries.map Context.path).Nodup) :
    (n.contexts.entries.map Context.path).Nodup := by
  induction h with
  | rest => exact hm
  | refresh _ ih =>
      rw [refresh_eq]
      exact ih
  | handOut _ _ ih => exact ContextCache.nodup_getOrCreate ih _
  | raise _ _ ih | tell _ _ ih | ask _ _ ih | settle _ _ _ _ ih | enrol _ _ ih | part _ ih =>
      exact ih

theorem enrolled (h : Course l m k n) (hm : m.Enrolled) : n.Enrolled := by
  induction h with
  | rest => exact hm
  | refresh _ ih =>
      rw [refresh_eq]
      exact ⟨ih.distinct, ih.numbered⟩
  | @enrol _ n _ _ ih =>
      refine ⟨List.nodup_append.mpr ⟨ih.distinct, List.nodup_singleton _, ?_⟩, ?_⟩
      · intro id hid other hother
        obtain rfl := List.mem_singleton.mp hother
        exact Nat.ne_of_lt (ih.numbered id hid)
      · intro id hid
        rcases List.mem_append.mp hid with hid | hid
        · exact Nat.lt_succ_of_lt (ih.numbered id hid)
        · obtain rfl := List.mem_singleton.mp hid
          exact Nat.lt_succ_self _
  | part _ ih =>
      exact ⟨ih.distinct.filter _, fun id hid => ih.numbered id (List.mem_of_mem_filter hid)⟩
  | raise _ _ ih | tell _ _ ih | handOut _ _ ih | ask _ _ ih | settle _ _ _ _ ih =>
      exact ⟨ih.distinct, ih.numbered⟩

end Course

end Model

/-! ## Reading and asking -/

/-- The licence suffices to read: documents may be asked for while the model lives, and the
contexts of documents may be handed out. -/
structure Licence.Covers (l : Licence) (m : Model) : Prop where
  asks : m.destroyed = false → l.asks
  documents : ∀ collection id, l.hands (Components.pathOf collection id)

namespace Model

variable {l : Licence} {m n : Model} {k : Nat}

theorem alive_of_query {c : Components} {sorters : List Sorter} {filters : List Filter}
    {binding : Option BindingId} {cursor : Cursor}
    (h : m.query c sorters filters binding = (.ok cursor, n)) : m.destroyed = false := by
  unfold query at h
  split at h
  · cases h
  · next halive => exact Bool.eq_false_iff.mpr halive

theorem alive_of_runQuery {path : String} {context : Option Context} {sorters : List Sorter}
    {filters : List Filter} {cursor : Cursor}
    (h : m.runQuery path context sorters filters = (.ok cursor, n)) : m.destroyed = false := by
  have hsame : (m.components path context).2.destroyed = m.destroyed := by
    unfold components
    split <;> rfl
  unfold runQuery at h
  split at h
  · cases h
  · next heq =>
      rw [heq] at hsame
      exact hsame.symm.trans (alive_of_query h)

namespace Course

theorem mayAsk (h : Course l m k n) (hl : l.Covers m) (halive : n.destroyed = false) : l.asks :=
  hl.asks (h.settings_eq.1.symm.trans halive)

theorem covers (h : Course l m k n) (hl : l.Covers m) : l.Covers n :=
  ⟨h.mayAsk hl, hl.documents⟩

theorem emitOn (h : Course l m k n) {id : BindingId} (hid : id = l.binding)
    (event : BindingEvent) : Course l m k (n.emitOn id event) := hid ▸ h.tell event

theorem report (h : Course l m k n) (error : BindingError) {binding : Option BindingId}
    (hid : ∀ id ∈ binding, id = l.binding) : Course l m k (n.report error binding) := by
  cases binding with
  | none => exact h.raise _
  | some id =>
      exact (h.raise _).emitOn (hid id rfl) _

theorem reportAll (h : Course l m k n) (errors : List BindingError)
    {binding : Option BindingId} (hid : ∀ id ∈ binding, id = l.binding) :
    Course l m k (n.reportAll errors binding) := by
  induction errors generalizing n with
  | nil => exact h
  | cons error rest ih => exact ih (h.report error hid)

theorem components (h : Course l m k n) (path : String) (context : Option Context) :
    Course l m k (n.components path context).2 := by
  unfold Model.components
  split
  · exact h
  · exact h.raise _

theorem query (h : Course l m k n) (c : Components) (sorters : List Sorter)
    (filters : List Filter) {binding : Option BindingId}
    (hid : ∀ id ∈ binding, id = l.binding) :
    Course l m k (n.query c sorters filters binding).2 := by
  unfold Model.query
  split
  · exact h
  split
  · exact h.reportAll _ hid
  · exact h.report _ hid

theorem runQuery (h : Course l m k n) (path : String) (context : Option Context)
    (sorters : List Sorter) (filters : List Filter) :
    Course l m k (n.runQuery path context sorters filters).2 := by
  have hcomponents := h.components path context
  unfold Model.runQuery
  split
  · next heq =>
      rw [heq] at hcomponents
      exact hcomponents
  · next c o heq =>
      rw [heq] at hcomponents
      exact hcomponents.query c sorters filters fun _ hnone => nomatch hnone

theorem observe (h : Course l m k n) (hasks : l.asks) (name : String) (query : Query)
    (feeds : List FeedId) :
    Course l m k { n with backend := (n.backend.observe name query).2, feeds := feeds } := by
  have hasked : (n.backend.observe name query).2.asked = n.backend.asked + 1 := by
    simp only [Backend.observe]
    split
    · rfl
    split <;> rfl
  have hsettled := (h.ask hasks).settle (n.backend.observe name query).2 feeds hasked
  exact hsettled

theorem subscribe (h : Course l m k n) (hl : l.Covers m) (c : Components)
    (sorters : List Sorter) (filters : List Filter) :
    Course l m k (n.subscribe c sorters filters l.binding).2 := by
  have hquery := h.query c sorters filters
    fun _ (hid : _ ∈ some l.binding) => (Option.some.inj hid).symm
  unfold Model.subscribe
  split
  · next heq =>
      rw [heq] at hquery
      exact hquery
  · next cursor o heq =>
      have hasks := h.mayAsk hl (alive_of_query heq)
      rw [heq] at hquery
      have hobserve := hquery.observe hasks cursor.collection cursor.query
      split <;> next hfound =>
        rw [hfound] at hobserve
        exact hobserve _

theorem first (h : Course l m k n) (hasks : l.asks) (cursor : Cursor) :
    Course l m k (n.first cursor).2 := h.ask hasks

theorem readDocument (h : Course l m k n) (hl : l.Covers m) (c : Components) :
    Course l m k (n.readDocument c).2 := by
  have hquery := h.query c [] [] fun _ (hnone : _ ∈ none) => nomatch hnone
  unfold Model.readDocument
  split
  · exact h
  split
  · next heq =>
      rw [heq] at hquery
      exact hquery
  · next cursor o heq =>
      rw [heq] at hquery
      have hfirst := hquery.first (h.mayAsk hl (alive_of_query heq)) cursor
      split <;> next hfound =>
        rw [hfound] at hfirst
        exact hfirst

theorem lookup (h : Course l m k n) (hl : l.Covers m) (document : Json) (path : String) :
    Course l m k (n.lookup document path).2 := by
  unfold Model.lookup
  split
  · exact h
  split
  · exact h
  split
  · exact h
  · exact h.handOut (hl.documents _ _)

theorem readProperty (h : Course l m k n) (hl : l.Covers m) (document : Json)
    (c : Components) : Course l m k (n.readProperty document c).2 := by
  unfold Model.readProperty
  split
  · exact h
  split
  · exact h.lookup hl document c.property
  · exact h

theorem readFromOwner (h : Course l m k n) (hl : l.Covers m) (path : String)
    (context : Context) : Course l m k (n.readFromOwner path context).2 := by
  unfold Model.readFromOwner
  split
  · exact h
  next owner _ =>
    have hread := h.readDocument hl owner
    split
    · next document o heq =>
        rw [heq] at hread
        exact hread.lookup hl document path
    · next heq =>
        rw [heq] at hread
        exact hread

theorem readStep (h : Course l m k n) (hl : l.Covers m) (path : String)
    (context : Option Context) : Course l m k (n.readStep path context).2 := by
  unfold Model.readStep
  split
  · split
    · exact h
    · exact h.readFromOwner hl path _
  split
  · exact h
  split
  · exact h
  next c _ =>
    have hread := h.readDocument hl c
    split
    · next document o heq =>
        rw [heq] at hread
        exact hread.readProperty hl document c
    · next heq =>
        rw [heq] at hread
        exact hread

theorem of_read? {path : String} {context : Option Context} {r : Reading}
    (hl : l.Covers m) (h : m.read? path context = some r) : Course l m 0 r.model := by
  revert hl
  refine read?.partial_correctness (motive := fun m _ _ r => l.Covers m → Course l m 0 r.model)
    ?_ m path context r h
  intro read hread m path context r hr hl
  have hleg := Course.rest.readStep hl path context
  split at hr
  · next heq =>
      rw [heq] at hleg
      obtain rfl := Option.some.inj hr
      exact hleg
  · next heq =>
      rw [heq] at hleg
      obtain ⟨s, hs, hlast⟩ := Option.bind_eq_some_iff.mp hr
      obtain rfl := Option.some.inj hlast
      exact hleg.trans (hread _ _ _ s hs (hleg.covers hl))

theorem getProperty (h : Course l m k n) (hl : l.Covers m) (path : String)
    (context : Option Context) : Course l m k (n.getProperty path context).2 := by
  unfold Model.getProperty
  split
  · next hread => exact h.trans (of_read? (h.covers hl) hread)
  · exact h

end Course

end Model

end LiveDocuments
