import LiveDocuments.Proofs.Session.Courses

/-!
# After the end of a model

A model that was destroyed refuses all queries and reads nothing. Whatever is done with it or
with its bindings from then on, the store is not asked again, with one exception: a list of
elements keeps its query beyond the end of the model and asks once more each time its
contexts are wanted (`Session.asked_after_destroy`).
-/

namespace LiveDocuments

open Model

/-! ## Reading -/

/-- What reading comes to where no document is at hand. -/
inductive Blank : Except BindingError (Option Json) → Prop where
  | nothing : Blank (.ok none)
  | refused : Blank (.error .modelDestroyed)
  | fault (path : String) (fault : PathFault) : Blank (.error (.pathFault path fault))

theorem BindingError.IsPathFault.blank {e : BindingError} (h : e.IsPathFault) :
    Blank (.error e) := by
  obtain ⟨path, fault, rfl⟩ := h
  exact .fault path fault

namespace Model

variable {m : Model}

theorem readDocument_of_destroyed (h : m.destroyed = true) (c : Components) :
    ∃ result, m.readDocument c = (result, m) ∧ Blank result := by
  unfold readDocument
  split
  · exact ⟨_, rfl, .nothing⟩
  · simp only [query, h, if_true]
    exact ⟨_, rfl, .refused⟩

theorem readStep_of_destroyed (h : m.destroyed = true) (path : String)
    (context : Option Context) :
    ∃ result, m.readStep path context = (.finished result, m) ∧ Blank result := by
  unfold readStep
  split
  · split
    · exact ⟨_, rfl, .nothing⟩
    next owner =>
      unfold readFromOwner
      split
      · next e howner =>
          refine ⟨_, rfl, ?_⟩
          cases hparse : Components.ofPath owner.path with
          | error fault =>
              rw [hparse] at howner
              obtain rfl := Except.error.inj howner
              exact (Components.isPathFault_of_ofPath hparse).blank
          | ok c =>
              rw [hparse] at howner
              exact (Components.isPathFault_of_ofPath howner).blank
      next c _ =>
        obtain ⟨result, hread, hblank⟩ := readDocument_of_destroyed h c
        rw [hread]
        cases hblank <;> exact ⟨_, rfl, by constructor⟩
  split
  · exact ⟨_, rfl, .nothing⟩
  split
  · next hparse => exact ⟨_, rfl, (Components.isPathFault_of_ofPath hparse).blank⟩
  next c _ =>
    obtain ⟨result, hread, hblank⟩ := readDocument_of_destroyed h c
    rw [hread]
    cases hblank <;> exact ⟨_, rfl, by constructor⟩

theorem getProperty_of_destroyed (h : m.destroyed = true) (path : String)
    (context : Option Context) :
    ∃ result, m.getProperty path context = (result, m) ∧ Blank result := by
  obtain ⟨result, hstep, hblank⟩ := readStep_of_destroyed h path context
  refine ⟨result, ?_, hblank⟩
  rw [getProperty, read?, hstep]

end Model

theorem PropertyBinding.currentValue_of_destroyed {m : Model} (h : m.destroyed = true)
    (b : PropertyBinding) : b.currentValue m = (none, m) := by
  obtain ⟨result, hread, hblank⟩ := getProperty_of_destroyed h b.path b.context
  rw [currentValue, readAt, hread]
  cases hblank <;> rfl

/-! ## Lists of elements -/

/-- The contexts of elements cost one question to the store, or none without a query. -/
theorem ElementList.asked_materialize (b : ElementList) (m : Model) :
    (b.materialize m).2.backend.asked = m.backend.asked + b.core.cursor.isSome.toNat := by
  have hcontexts : ∀ (n : Model) (value : Option Json),
      (b.contextsOf n value).2.backend.asked = n.backend.asked := by
    intro n value
    unfold contextsOf
    split <;> rfl
  unfold materialize
  cases b.core.cursor with
  | none => rfl
  | some cursor =>
      have hfirst : (m.first cursor).2.backend.asked = m.backend.asked + 1 := rfl
      dsimp only
      split
      · next heq =>
          rw [heq] at hfirst
          exact hfirst
      · next heq =>
          rw [heq] at hfirst
          exact hfirst
      · next heq =>
          rw [heq] at hfirst
          exact (hcontexts _ _).trans hfirst

namespace Binding

/-- Only a list of elements that has a query asks again, and only for its contexts. -/
theorem exists_of_rereads {b : Binding} {request : BindingAction}
    (h : b.rereads request = true) : ∃ start length list, request = .getContexts start length ∧
      b = .list (.elements list) ∧ list.core.cursor.isSome = true := by
  cases request with
  | getContexts start length =>
      cases b with
      | list b =>
          cases b with
          | elements list => exact ⟨start, length, list, rfl, rfl, h⟩
          | documents => cases h
      | property => cases h
      | context => cases h
  | _ => cases h

theorem IsAttached.cursor_isSome_iff {b : ElementList}
    (h : (list (.elements b)).IsAttached) :
    b.core.cursor.isSome = true ↔ (list (.elements b)).follower.feeds.length = 1 := by
  have hcore : b.core.cursor.isSome = b.core.subscription?.isSome := h
  have hfeeds : (list (.elements b)).follower.feeds =
      (b.core.subscription?.map Subscription.feed).toList := rfl
  rw [hcore, hfeeds]
  cases b.core.subscription? with
  | none => exact iff_of_false Bool.false_ne_true Nat.zero_ne_one
  | some subscription => exact iff_of_true rfl rfl

end Binding

namespace Session

/-! ## Questions to the store -/

/-- Once the model is destroyed, an action asks the store as often as it makes a list of
elements ask again. -/
theorem asked_act {s : Session} (hs : s.Orderly) (h : s.model.destroyed = true)
    (action : SessionAction) :
    (s.act action).model.backend.asked =
      s.model.backend.asked + (s.rereads action).toNat := by
  by_cases hdestroy : action = .destroy
  · subst hdestroy
    show s.model.destroy.backend.asked = s.model.backend.asked
    rw [destroy, if_pos h]
  cases hreads : s.rereads action with
  | false =>
      refine (hs.course hdestroy).asked_eq ?_
      rintro (halive | hasks)
      · exact Bool.false_ne_true (halive.symm.trans h)
      · exact Bool.false_ne_true (hreads.symm.trans hasks)
  | true =>
      cases action with
      | on id request =>
          cases hbinding : s.binding? id with
          | none =>
              rw [rereads, hbinding] at hreads
              cases hreads
          | some b =>
              rw [rereads, hbinding] at hreads
              obtain ⟨start, length, list, rfl, rfl, hcursor⟩ := Binding.exists_of_rereads hreads
              have hasked := list.asked_materialize s.model
              rw [hcursor] at hasked
              simp only [act, hbinding]
              exact hasked
      | _ => cases hreads

/-- Which actions make a list of elements ask again: those for the contexts of one that is
in use and whose last attempt to query was granted. -/
theorem rereads_iff {s : Session} {attempts : List Attempt} (haccounts : s.Accounted attempts)
    (hattached : s.Attached) (action : SessionAction) :
    s.rereads action = true ↔ ∃ id start length list,
      action = .on id (.getContexts start length) ∧
        s.binding? id = some (.list (.elements list)) ∧
        list.core.isDestroyed = false ∧ lastSucceeded attempts id = true := by
  have hcursor : ∀ id list, s.binding? id = some (.list (.elements list)) →
      (list.core.cursor.isSome = true ↔
        list.core.isDestroyed = false ∧ lastSucceeded attempts id = true) := by
    intro id list hbinding
    have hmem := mem_of_binding? hbinding
    have hlength : (Binding.list (.elements list)).follower.feeds.length =
        if list.core.isDestroyed then 0 else (lastSucceeded attempts id).toNat :=
      haccounts.settled _ (List.mem_map_of_mem
        (f := fun entry : BindingId × Binding => (entry.1, entry.2.follower)) hmem)
    rw [(hattached _ hmem).cursor_isSome_iff, hlength]
    cases list.core.isDestroyed <;> cases lastSucceeded attempts id <;> decide
  constructor
  · intro h
    cases action with
    | on id request =>
        cases hbinding : s.binding? id with
        | none =>
            rw [rereads, hbinding] at h
            cases h
        | some b =>
            rw [rereads, hbinding] at h
            obtain ⟨start, length, list, rfl, rfl, hsome⟩ := Binding.exists_of_rereads h
            exact ⟨id, start, length, list, rfl, hbinding, (hcursor id list hbinding).mp hsome⟩
    | _ => cases h
  · rintro ⟨id, start, length, list, rfl, hbinding, hlast⟩
    rw [rereads, hbinding]
    exact (hcursor id list hbinding).mpr hlast

/-! ## Runs -/

/-- After the end of a model the store is asked by lists of elements only. In every state of a run
that destroyed the model, it stays destroyed. Whatever is then done asks the store for nothing,
unless it is to give the contexts of a list of elements that is in use and whose last attempt to
query was granted, which asks once. Whatever is read, no document is seen, and the model stays as
it is. -/
theorem asked_after_destroy (config : Config) (before after : List SessionAction) :
    let actions := before ++ .destroy :: after
    let s := (start .empty config).run actions
    let attempts := (start .empty config).attempts actions
    s.model.destroyed = true ∧
      (∀ action, (s.act action).model.backend.asked =
        s.model.backend.asked + (s.rereads action).toNat) ∧
      (∀ action, s.rereads action = true ↔ ∃ id start length list,
        action = .on id (.getContexts start length) ∧
          s.binding? id = some (.list (.elements list)) ∧
          list.core.isDestroyed = false ∧ lastSucceeded attempts id = true) ∧
      (∀ path context, ∃ result,
        s.model.getProperty path context = (result, s.model) ∧ Blank result) ∧
      (∀ b : PropertyBinding, b.currentValue s.model = (none, s.model)) := by
  intro actions s attempts
  obtain ⟨haccounts, hdestroyed⟩ := (accounted_start config).run actions
  have haccounts : s.Accounted attempts := haccounts
  have hend : s.model.destroyed = true :=
    hdestroyed.mpr (.inr (List.mem_append_right before List.mem_cons_self))
  have hs := orderly_run config actions
  exact ⟨hend, asked_act hs hend, rereads_iff haccounts hs.attached,
    getProperty_of_destroyed hend, PropertyBinding.currentValue_of_destroyed hend⟩

/-- The items of a document listed, and the model destroyed before another item is added. -/
def outlived : List SessionAction :=
  [.write (.insert "C" (.object [("_id", .string "a"), ("items", .array [.string "x"])])),
    .bindList "items" (some ⟨"/C(a)", 0⟩) [] [], .destroy,
    .write (.update "C" (.plain "a") (.object [("items", .array [.string "x", .string "y"])]))]

/-- The list asks for its items although the model is destroyed, and shows the new one. -/
theorem elements_asked_after_destroy :
    let s := (start .empty .default).run outlived
    let t := s.act (.on 0 (.getContexts none none))
    s.model.destroyed = true ∧ t.model.backend.asked = s.model.backend.asked + 1 ∧
      t.model.contexts.entries.map Context.path = ["/C(a)/items[0]", "/C(a)/items[1]"] := by
  decide +kernel

end Session

end LiveDocuments
