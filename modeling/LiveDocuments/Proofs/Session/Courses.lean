import LiveDocuments.Proofs.Binding.Acting
import LiveDocuments.Proofs.Session.Subscriptions

/-!
# The courses of a session

Every action of a session, short of destroying the model, takes the model through a course
on behalf of one binding: the one that is asked or let go, or the one that is about to be
made (`Session.course_act`). The bindings after an action are those before it, one that was
made, and one that was asked (`Session.mem_bindings_act`).
-/

namespace LiveDocuments

open Model

/-- The number of the binding that an action addresses. -/
def SessionAction.addressed? : SessionAction → Option BindingId
  | .on id _ => some id
  | .drop id => some id
  | _ => none

namespace Session

/-- What every action keeps is kept by a run. -/
theorem run_of_act (Q : Session → Prop)
    (hQ : ∀ s : Session, Q s → ∀ action, Q (s.act action)) {s : Session} (h : Q s)
    (actions : List SessionAction) : Q (s.run actions) := by
  induction actions generalizing s with
  | nil => exact h
  | cons action rest ih => exact ih (hQ s h action)

/-! ## The bindings after an action -/

/-- The binding that an action makes, if it makes one. -/
def made? (s : Session) : SessionAction → Option Binding
  | .bindProperty path context =>
      ((PropertyBinding.create s.model path context).1.map .property).toOption
  | .bindContext path context =>
      ((ContextBinding.create s.model path context).1.map .context).toOption
  | .bindList path parent sorters filters =>
      ((ListBinding.create s.model path parent sorters filters).1.map .list).toOption
  | _ => none

theorem exists_of_toOption_map {α β : Type} {made : Except BindingError α} {f : α → β} {b : β}
    (h : (made.map f).toOption = some b) : ∃ a, made = .ok a ∧ f a = b := by
  cases made with
  | error e => cases h
  | ok a => exact ⟨a, rfl, Option.some.inj h⟩

theorem id_of_isMade {m n : Model} {attempt : Option Bool} {made : Except BindingError Binding}
    {b : Binding} (h : Binding.IsMade m attempt (made, n)) (hb : made = .ok b) :
    b.id = m.nextBinding := by
  subst hb
  exact h.1

/-- An action makes a binding of one of four kinds. -/
inductive Makes (m : Model) : SessionAction → Binding → Prop
  | property {path : String} {context : Option Context} {b : PropertyBinding}
      (h : (PropertyBinding.create m path context).1 = .ok b) :
      Makes m (.bindProperty path context) (.property b)
  | context {path : String} {context : Option Context} {b : ContextBinding}
      (h : (ContextBinding.create m path context).1 = .ok b) :
      Makes m (.bindContext path context) (.context b)
  | documents {path : String} {sorters : List Sorter} {filters : List Filter} {b : DocumentList}
      (h : (DocumentList.create m path sorters filters).1 = .ok b) :
      Makes m (.bindList path none sorters filters) (.list (.documents b))
  | elements {path : String} {parent : Context} {sorters : List Sorter} {filters : List Filter}
      {b : ElementList} (h : (ElementList.create m path parent sorters filters).1 = .ok b) :
      Makes m (.bindList path (some parent) sorters filters) (.list (.elements b))

theorem makes_of_made? {s : Session} {action : SessionAction} {b : Binding}
    (h : s.made? action = some b) : Makes s.model action b := by
  cases action with
  | bindProperty path context =>
      obtain ⟨made, hmade, rfl⟩ := exists_of_toOption_map h
      exact .property hmade
  | bindContext path context =>
      obtain ⟨made, hmade, rfl⟩ := exists_of_toOption_map h
      exact .context hmade
  | bindList path parent sorters filters =>
      obtain ⟨list, hlist, rfl⟩ := exists_of_toOption_map h
      cases parent with
      | none =>
          obtain ⟨made, hmade, rfl⟩ := exists_of_toOption_map (congrArg Except.toOption hlist)
          exact .documents hmade
      | some parent =>
          obtain ⟨made, hmade, rfl⟩ := exists_of_toOption_map (congrArg Except.toOption hlist)
          exact .elements hmade
  | _ => cases h

theorem id_of_made? {s : Session} {action : SessionAction} {b : Binding}
    (h : s.made? action = some b) : b.id = s.model.nextBinding := by
  cases makes_of_made? h with
  | property hmade =>
      exact id_of_isMade (PropertyBinding.isMade s.model _ _) (congrArg (Except.map _) hmade)
  | context hmade =>
      exact id_of_isMade (ContextBinding.isMade s.model _ _) (congrArg (Except.map _) hmade)
  | documents hmade =>
      exact id_of_isMade (DocumentList.isMade s.model _ _ _) (congrArg (Except.map _) hmade)
  | elements hmade =>
      exact id_of_isMade (ElementList.isMade s.model _ _ _ _) (congrArg (Except.map _) hmade)

theorem mem_of_binding? {s : Session} {id : BindingId} {b : Binding}
    (h : s.binding? id = some b) : (id, b) ∈ s.bindings := by
  rcases Option.map_eq_some_iff.mp h with ⟨⟨number, found⟩, hfound, rfl⟩
  obtain rfl : number = id := by simpa using List.find?_some hfound
  exact List.mem_of_find?_eq_some hfound

theorem mem_bindings_bind {s : Session} {made : Except BindingError Binding × Model}
    {entry : BindingId × Binding} (h : entry ∈ (s.bind made).2.bindings) :
    entry ∈ s.bindings ∨ ∃ b, made.1.toOption = some b ∧ entry = (b.id, b) := by
  obtain ⟨result, m⟩ := made
  cases result with
  | error e => exact .inl h
  | ok b => exact (List.mem_append.mp h).imp_right fun hb => ⟨b, rfl, List.mem_singleton.mp hb⟩

theorem ne_of_binding?_eq_none {s : Session} {id : BindingId} (h : s.binding? id = none)
    {entry : BindingId × Binding} (hentry : entry ∈ s.bindings) : entry.1 ≠ id := by
  have hnone := List.find?_eq_none.mp (Option.map_eq_none_iff.mp h) entry hentry
  exact fun heq => hnone (decide_eq_true heq)

/-- A binding after an action was there before and is not the one addressed, or was just made,
or is the one asked. -/
theorem mem_bindings_act {s : Session} {action : SessionAction} {entry : BindingId × Binding}
    (h : entry ∈ (s.act action).bindings) :
    (entry ∈ s.bindings ∧ ∀ id ∈ action.addressed?, entry.1 ≠ id) ∨
      (∃ b, s.made? action = some b ∧ entry = (b.id, b)) ∨
      ∃ id request b, action = .on id request ∧ s.binding? id = some b ∧
        entry = (id, (b.act s.model request).1) := by
  have hold : entry ∈ s.bindings → action.addressed? = none →
      entry ∈ s.bindings ∧ ∀ id ∈ action.addressed?, entry.1 ≠ id :=
    fun hentry hnone => ⟨hentry, by simp [hnone]⟩
  cases action with
  | bindProperty path context => exact (mem_bindings_bind h).imp (fun h => hold h rfl) .inl
  | bindContext path context => exact (mem_bindings_bind h).imp (fun h => hold h rfl) .inl
  | bindList path parent sorters filters =>
      exact (mem_bindings_bind h).imp (fun h => hold h rfl) .inl
  | query path context sorters filters =>
      simp only [act] at h
      split at h <;> exact .inl (hold h rfl)
  | on id request =>
      cases hbinding : s.binding? id with
      | none =>
          simp only [act, hbinding] at h
          refine .inl ⟨h, fun other hother => ?_⟩
          obtain rfl := Option.some.inj hother
          exact ne_of_binding?_eq_none hbinding h
      | some b =>
          simp only [act, hbinding, put] at h
          rcases List.mem_map.mp h with ⟨old, hentry, rfl⟩
          split
          · exact .inr (.inr ⟨id, request, b, rfl, hbinding, rfl⟩)
          · next hne =>
              refine .inl ⟨hentry, fun other hother => ?_⟩
              obtain rfl := Option.some.inj hother
              exact hne
  | drop id =>
      refine .inl ?_
      cases hbinding : s.binding? id with
      | none =>
          simp only [act, drop, hbinding] at h
          refine ⟨h, fun other hother => ?_⟩
          obtain rfl := Option.some.inj hother
          exact ne_of_binding?_eq_none hbinding h
      | some b =>
          simp only [act, drop, hbinding] at h
          obtain ⟨hentry, hne⟩ := List.mem_filter.mp h
          refine ⟨hentry, fun other hother => ?_⟩
          obtain rfl := Option.some.inj hother
          exact of_decide_eq_true hne
  | _ => exact .inl (hold h rfl)

/-- Every binding is kept under its own number. -/
def Labelled (s : Session) : Prop := ∀ entry ∈ s.bindings, entry.2.id = entry.1

theorem labelled_start (store : Store) (config : Config) : (start store config).Labelled :=
  fun _ h => absurd h List.not_mem_nil

theorem Labelled.id_eq {s : Session} (h : s.Labelled) {id : BindingId} {b : Binding}
    (hb : s.binding? id = some b) : b.id = id := h (id, b) (mem_of_binding? hb)

theorem Labelled.act {s : Session} (h : s.Labelled) (action : SessionAction) :
    (s.act action).Labelled := by
  intro entry hentry
  rcases mem_bindings_act hentry with ⟨hold, -⟩ | ⟨b, _, rfl⟩ | ⟨id, request, b, _, hb, rfl⟩
  · exact h entry hold
  · rfl
  · exact (b.id_act s.model request).trans (h.id_eq hb)

/-- Each list of elements has its query exactly while it is subscribed. -/
def Attached (s : Session) : Prop := ∀ entry ∈ s.bindings, entry.2.IsAttached

theorem attached_start (store : Store) (config : Config) : (start store config).Attached :=
  fun _ h => absurd h List.not_mem_nil

theorem isAttached_of_made? {s : Session} {action : SessionAction} {b : Binding}
    (h : s.made? action = some b) : b.IsAttached := by
  cases makes_of_made? h with
  | elements hmade => exact ElementList.isAttached_create (Prod.ext hmade rfl)
  | _ => trivial

theorem Attached.act {s : Session} (h : s.Attached) (action : SessionAction) :
    (s.act action).Attached := by
  intro entry hentry
  rcases mem_bindings_act hentry with ⟨hold, -⟩ | ⟨b, hmade, rfl⟩ | ⟨id, request, b, _, hb, rfl⟩
  · exact h entry hold
  · exact isAttached_of_made? hmade
  · exact (h (id, b) (mem_of_binding? hb)).act s.model request

/-! ## The course of an action -/

/-- The binding on whose behalf an action is taken: the one concerned, or else the next one
to be made. -/
def owner (s : Session) : SessionAction → BindingId
  | .on id _ => id
  | .drop id => id
  | _ => s.model.nextBinding

/-- Whether an action makes a list of elements ask for its document once more. -/
def rereads (s : Session) : SessionAction → Bool
  | .on id request => (s.binding? id).any fun b => b.rereads request
  | _ => false

/-- How often an action tells all bindings to read again. -/
def requests (s : Session) : SessionAction → Nat
  | .refresh => 1
  | .on id request => ((s.binding? id).map fun b => b.requests s.model request).getD 0
  | _ => 0

/-- The contexts that an action makes, those of documents apart, are for paths with the
property. -/
def Hands (P : String → Prop) (s : Session) : SessionAction → Prop
  | .getContext path => path.toList.head? = some '/' → P path
  | .createContext path context => P (s.model.place path context)
  | .bindContext path context => P (s.model.place path context)
  | .on id request => ∀ b, s.binding? id = some b → b.Hands P s.model request
  | _ => True

/-- What an action may do: ask the store while the model lives, or for the elements of a
list, and make contexts for paths with the property. -/
def licence (P : String → Prop) (s : Session) (action : SessionAction) : Licence where
  binding := s.owner action
  asks := s.model.destroyed = false ∨ s.rereads action = true
  hands := P

theorem model_bind (s : Session) (made : Except BindingError Binding × Model) :
    (s.bind made).2.model = made.2 := by
  obtain ⟨result, m⟩ := made
  cases result <;> rfl

/-- An action that does not destroy the model takes it through a course. -/
theorem course_act {s : Session} (hlabelled : s.Labelled) (hsound : s.model.ledger.Sound)
    {action : SessionAction} (h : action ≠ .destroy) {P : String → Prop}
    (hdocuments : ∀ collection id, P (Components.pathOf collection id))
    (hhands : s.Hands P action) :
    Course (s.licence P action) s.model (s.requests action) (s.act action).model := by
  have hcovers : (s.licence P action).Covers s.model := ⟨.inl, hdocuments⟩
  cases action with
  | write write => exact Course.rest.withStore _
  | refuse find observe => exact Course.rest.settle _ s.model.feeds rfl
  | getContext path =>
      simp only [act, withModel, getContext]
      split
      · next hroot => exact Course.rest.handOut (hhands hroot)
      · exact .rest
  | createContext path context => exact Course.rest.createContext hhands
  | read path context => exact Course.rest.getProperty hcovers path context
  | query path context sorters filters =>
      have hquery := Course.rest.runQuery (l := s.licence P (.query path context sorters filters))
        (m := s.model) path context sorters filters
      simp only [act]
      split
      · next heq =>
          rw [heq] at hquery
          exact hquery
      · next cursor n heq =>
          rw [heq] at hquery
          exact hquery.first (.inl (alive_of_runQuery heq)) cursor
  | refresh => exact Course.rest.refresh
  | destroy => exact absurd rfl h
  | bindProperty path context =>
      rw [act, bindProperty, model_bind]
      exact PropertyBinding.course_create hcovers rfl path context
  | bindContext path context =>
      rw [act, bindContext, model_bind]
      exact ContextBinding.course_create hcovers rfl hsound path context hhands
  | bindList path parent sorters filters =>
      rw [act, bindList, model_bind]
      cases parent with
      | none => exact DocumentList.course_create hcovers rfl hsound path sorters filters
      | some parent =>
          exact ElementList.course_create hcovers rfl hsound path parent sorters filters
  | on id request =>
      cases hbinding : s.binding? id with
      | none =>
          simp only [act, requests, hbinding]
          exact .rest
      | some b =>
          simp only [act, requests, hbinding]
          refine b.course_act hcovers (hlabelled.id_eq hbinding) request (fun hreads => .inr ?_)
            (hhands b hbinding) hsound
          show (s.binding? id).any (fun b => b.rereads request) = true
          rw [hbinding]
          exact hreads
  | drop id =>
      cases hbinding : s.binding? id with
      | none =>
          simp only [act, drop, hbinding]
          exact .rest
      | some b =>
          simp only [act, drop, hbinding]
          exact b.course_drop (hlabelled.id_eq hbinding)

theorem hands_of_forall {P : String → Prop} (hP : ∀ path, P path) (s : Session)
    (action : SessionAction) : s.Hands P action := by
  have hmode : ∀ sync : Synchronizer, sync.Hands P := fun _ _ _ _ => hP _
  cases action with
  | getContext path => exact fun _ => hP path
  | createContext path context => exact hP _
  | bindContext path context => exact hP _
  | on id request =>
      intro b _
      cases b with
      | property b => trivial
      | context b => exact ⟨hmode _, hP _, fun _ _ => hP _⟩
      | list b =>
          cases b with
          | documents b => exact hmode _
          | elements b => exact ⟨hmode _, fun _ => hP _⟩
  | _ => trivial

/-! ## Sessions that are reached -/

/-- What holds of every session that is reached: its accounts, that its bindings are kept
under their own numbers and lists of elements attached to what they query, and that each
binding that refreshes reach has a number of its own. -/
structure Orderly (s : Session) : Prop where
  accounted : ∃ attempts, s.Accounted attempts
  labelled : s.Labelled
  attached : s.Attached
  enrolled : s.model.Enrolled

theorem Orderly.sound {s : Session} (h : s.Orderly) : s.model.ledger.Sound := by
  obtain ⟨attempts, haccounts⟩ := h.accounted
  exact haccounts.balanced.toSound

theorem Orderly.course {s : Session} (h : s.Orderly) {action : SessionAction}
    (haction : action ≠ .destroy) :
    Course (s.licence (fun _ => True) action) s.model (s.requests action)
      (s.act action).model :=
  course_act h.labelled h.sound haction (fun _ _ => trivial)
    (hands_of_forall (fun _ => trivial) s action)

theorem Orderly.act {s : Session} (h : s.Orderly) (action : SessionAction) :
    (s.act action).Orderly where
  accounted := by
    obtain ⟨attempts, haccounts⟩ := h.accounted
    exact ⟨_, (haccounts.act action).1⟩
  labelled := h.labelled.act action
  attached := h.attached.act action
  enrolled := by
    by_cases hdestroy : action = .destroy
    · subst hdestroy
      show s.model.destroy.Enrolled
      unfold destroy
      split
      · exact h.enrolled
      · exact ⟨List.nodup_nil, fun _ hmem => absurd hmem List.not_mem_nil⟩
    · exact (h.course hdestroy).enrolled h.enrolled

theorem orderly_run (config : Config) (actions : List SessionAction) :
    ((start .empty config).run actions).Orderly :=
  run_of_act Orderly (fun _ => .act) ⟨⟨[], accounted_start config⟩,
    labelled_start .empty config, attached_start .empty config,
    ⟨List.nodup_nil, fun _ h => absurd h List.not_mem_nil⟩⟩ actions

end Session

end LiveDocuments
