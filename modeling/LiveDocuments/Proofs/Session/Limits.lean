import LiveDocuments.Proofs.Binding.Limits
import LiveDocuments.Proofs.Session.Instances
import Mathlib.Data.List.Induction

/-!
# How much the lists of a session show

In every state of a session a list of documents shows no more than the size limit of its
model, whatever happens to the documents and to other bindings (`Session.Limited`). A list of
elements has no such bound: it shows as many contexts as it found items when it was last
asked, so all stay within the limit just as long as no more items are found
(`Session.list_sizes`).
-/

namespace LiveDocuments

open Model

namespace Session

/-! ## Feeds of others -/

/-- The feeds of the binding that an action addresses. -/
def touched (s : Session) (action : SessionAction) : List FeedId :=
  ((action.addressed?.bind s.binding?).map fun b => b.follower.feeds).getD []

theorem Orderly.apart {s : Session} (h : s.Orderly) (halive : s.model.destroyed = false)
    {entry : BindingId × Binding} (hentry : entry ∈ s.bindings) {action : SessionAction}
    (hne : ∀ id ∈ action.addressed?, entry.1 ≠ id) :
    ∀ feed ∈ entry.2.follower.feeds, feed ∉ s.touched action := by
  intro feed hfeed htouched
  obtain ⟨attempts, haccounts⟩ := h.accounted
  simp only [touched] at htouched
  cases hbinding : action.addressed?.bind s.binding? with
  | none =>
      rw [hbinding] at htouched
      cases htouched
  | some b =>
      obtain ⟨id, haddressed, hb⟩ := Option.bind_eq_some_iff.mp hbinding
      obtain ⟨before, after, hsplit, -⟩ := split_of_binding? hb haccounts.distinct_bindings
      rw [hbinding] at htouched
      -- what the binding addressed follows is live once, and so not followed by another
      have hperm := haccounts.balanced.live_perm
      rw [show s.model.ledger.destroyed = false from halive, followers, hsplit, List.map_append,
        List.map_cons] at hperm
      have hheld := (hperm.trans (Accounts.held_perm _ _ _ _)).nodup_iff.mp
        haccounts.balanced.distinct
      have hother : entry ∈ before ++ after := by
        rw [hsplit] at hentry
        rcases List.mem_append.mp hentry with hbefore | hrest
        · exact List.mem_append_left after hbefore
        rcases List.mem_cons.mp hrest with rfl | hafter
        · exact absurd rfl (hne id haddressed)
        · exact List.mem_append_right before hafter
      refine List.disjoint_of_nodup_append hheld htouched (List.mem_flatMap.mpr ?_)
      rw [← List.map_append]
      exact ⟨_, List.mem_map_of_mem hother, hfeed⟩

/-- An action other than a write or a refusal touches only the feeds of the binding it
addresses. -/
theorem spares_act {s : Session} (hm : s.model.store.Consistent) {action : SessionAction}
    (hdestroy : action ≠ .destroy) (hwrite : ∀ write, action ≠ .write write)
    (hrefuse : ∀ find observe, action ≠ .refuse find observe) :
    s.model.Spares (s.touched action) (s.act action).model := by
  have hnone : ∀ {n : Model}, s.model.Spares [] n → s.model.Spares (s.touched action) n :=
    fun h => h.mono (List.nil_subset _)
  cases action with
  | write write => exact absurd rfl (hwrite write)
  | refuse find observe => exact absurd rfl (hrefuse find observe)
  | getContext path => exact .of_onlyAsks (.getContext s.model path)
  | createContext path context => exact .of_onlyAsks (.createContext s.model path context)
  | read path context => exact .of_onlyAsks (.getProperty s.model path context)
  | query path context sorters filters =>
      have hquery := OnlyAsks.runQuery s.model path context sorters filters
      simp only [act]
      split
      · next heq =>
          rw [heq] at hquery
          exact .of_onlyAsks hquery
      · next cursor n heq =>
          rw [heq] at hquery
          exact .of_onlyAsks (hquery.trans (.fetch n cursor))
  | refresh => exact .of_onlyRaises (.refresh s.model)
  | destroy => exact absurd rfl hdestroy
  | bindProperty path context =>
      rw [act, bindProperty, model_bind]
      exact hnone (PropertyBinding.spares_create s.model path context)
  | bindContext path context =>
      rw [act, bindContext, model_bind]
      exact hnone (ContextBinding.spares_create hm path context)
  | bindList path parent sorters filters =>
      rw [act, bindList, model_bind]
      cases parent with
      | none => exact hnone (DocumentList.spares_create hm path sorters filters)
      | some parent => exact hnone (ElementList.spares_create hm path parent sorters filters)
  | on id request =>
      cases hbinding : s.binding? id with
      | none =>
          simp only [act, hbinding]
          exact .refl s.model
      | some b =>
          have htouched : s.touched (.on id request) = b.follower.feeds := by
            simp only [touched, SessionAction.addressed?, Option.bind_some, hbinding,
              Option.map_some, Option.getD_some]
          simp only [act, hbinding, htouched]
          exact b.spares_act hm request
  | drop id =>
      cases hbinding : s.binding? id with
      | none =>
          simp only [act, drop, hbinding]
          exact .refl s.model
      | some b =>
          have htouched : s.touched (.drop id) = b.follower.feeds := by
            simp only [touched, SessionAction.addressed?, Option.bind_some, hbinding,
              Option.map_some, Option.getD_some]
          simp only [act, drop, hbinding, htouched]
          exact b.spares_drop hm

/-! ## Lists of documents over a run -/

theorem limited_of_made? {s : Session} (hm : s.model.store.Consistent) {action : SessionAction}
    {b : Binding} (h : s.made? action = some b) : b.Limited (s.act action).model := by
  rintro d rfl
  cases makes_of_made? h with
  | documents hmade =>
      rw [act, bindList, model_bind]
      exact DocumentList.limited_create hm hmade

theorem Orderly.ended {s : Session} (h : s.Orderly) (hdestroyed : s.model.destroyed = true) :
    s.model.store.live = [] := by
  obtain ⟨attempts, haccounts⟩ := h.accounted
  have hperm := haccounts.balanced.live_perm
  rw [show s.model.ledger.destroyed = true from hdestroyed] at hperm
  exact List.map_eq_nil_iff.mp hperm.eq_nil

/-- Every list of documents is within the limit of the model. -/
structure Limited (s : Session) : Prop where
  orderly : s.Orderly
  consistent : s.model.store.Consistent
  lists : ∀ entry ∈ s.bindings, entry.2.Limited s.model

theorem limited_start (config : Config) : (start .empty config).Limited :=
  ⟨orderly_run config [], Store.consistent_empty, fun _ h => absurd h List.not_mem_nil⟩

/-- An action leaves the lists that it does not concern within the limit, and those that it
concerns too. -/
theorem Limited.act {s : Session} (h : s.Limited) (action : SessionAction) :
    (s.act action).Limited := by
  refine ⟨h.orderly.act action, ?_, ?_⟩
  · cases action with
    | destroy =>
        show s.model.destroy.store.Consistent
        unfold Model.destroy
        split
        · exact h.consistent
        · exact h.consistent.stopAll s.model.feeds
    | write write => exact h.consistent.step write.operation
    | refuse find observe => exact h.consistent
    | _ => exact (spares_act h.consistent (by simp) (by simp) (by simp)).consistent h.consistent
  · intro entry hentry
    rcases mem_bindings_act hentry with
      ⟨hold, hne⟩ | ⟨b, hmade, rfl⟩ | ⟨id, request, b, rfl, hb, rfl⟩
    · have hlimited := h.lists entry hold
      cases action with
      | destroy => exact hlimited.destroy
      | write write => exact hlimited.write h.consistent write
      | refuse find observe => exact hlimited.refuse find observe
      | _ =>
          exact hlimited.carry (spares_act h.consistent (by simp) (by simp) (by simp))
            (supplies_act h.orderly.sound (by simp)).draws
            fun halive => h.orderly.apart halive hold hne
    · exact limited_of_made? h.consistent hmade
    · have hlimited := h.lists (id, b) (mem_of_binding? hb)
      simp only [Session.act, hb]
      exact hlimited.act h.consistent h.orderly.ended request

theorem limited_run (config : Config) (actions : List SessionAction) :
    ((start .empty config).run actions).Limited :=
  run_of_act Limited (fun _ => .act) (limited_start config) actions

theorem config_act {s : Session} (h : s.Orderly) (action : SessionAction) :
    (s.act action).model.config = s.model.config := by
  by_cases hdestroy : action = .destroy
  · subst hdestroy
    show s.model.destroy.config = s.model.config
    unfold destroy
    split <;> rfl
  · exact (h.course hdestroy).settings_eq.2

theorem config_run (config : Config) (actions : List SessionAction) :
    ((start .empty config).run actions).model.config = config.normalized :=
  (run_of_act (fun s => s.Orderly ∧ s.model.config = config.normalized)
    (fun _ hs action => ⟨hs.1.act action, (config_act hs.1 action).trans hs.2⟩)
    ⟨orderly_run config [], rfl⟩ actions).2

/-! ## Lists of elements over a run -/

/-- How many items a list of elements finds that an action asks for its contexts. -/
def itemsFound (s : Session) : SessionAction → Nat
  | .on id (.getContexts _ _) =>
      match s.binding? id with
      | some (.list (.elements b)) => (b.items s.model).length
      | _ => 0
  | _ => 0

/-- The lists of elements have no more contexts than a limit. -/
def ElementsWithin (s : Session) (limit : Nat) : Prop :=
  ∀ id b, (id, .list (.elements b)) ∈ s.bindings → b.size ≤ limit

theorem size_of_made? {s : Session} {action : SessionAction} {b : ElementList}
    (h : s.made? action = some (.list (.elements b))) : b.size = 0 := by
  cases makes_of_made? h with
  | elements hmade => exact ElementList.size_create hmade

/-- A list of elements has more contexts than before only if it found more items. -/
theorem ElementsWithin.act {s : Session} {limit : Nat} (h : s.ElementsWithin limit)
    {action : SessionAction} (hfound : s.itemsFound action ≤ limit) :
    (s.act action).ElementsWithin limit := by
  intro id b hentry
  rcases mem_bindings_act hentry with
    ⟨hold, -⟩ | ⟨made, hmade, heq⟩ | ⟨other, request, asked, rfl, hasked, heq⟩
  · exact h id b hold
  · obtain ⟨-, rfl⟩ := Prod.mk.inj heq
    exact size_of_made? hmade ▸ Nat.zero_le limit
  · obtain ⟨rfl, hb⟩ := Prod.mk.inj heq
    obtain ⟨e, rfl⟩ := Binding.elements_of_act hb.symm
    have hbefore := h id e (mem_of_binding? hasked)
    rcases ElementList.size_act hb.symm with hsize | ⟨first, length, rfl, hsize⟩
    · exact hsize.trans hbefore
    · rw [hsize]
      simpa only [itemsFound, hasked] using hfound

/-- A list of elements that is asked for its contexts has one for every item it found. -/
theorem itemsFound_le {s : Session} {limit : Nat} {action : SessionAction}
    (h : (s.act action).ElementsWithin limit) : s.itemsFound action ≤ limit := by
  unfold itemsFound
  split
  · next id first length =>
      split
      · next b hb =>
          have hnext : (id, .list (.elements (b.getContexts s.model first length).2.1)) ∈
              (s.act (.on id (.getContexts first length))).bindings := by
            simp only [Session.act, hb]
            exact List.mem_map.mpr ⟨_, mem_of_binding? hb, if_pos rfl⟩
          exact (b.size_getContexts s.model first length) ▸ h id _ hnext
      · exact Nat.zero_le limit
  · exact Nat.zero_le limit

/-- The lists of elements stay within a limit just as long as no more items are found. -/
theorem elementsWithin_iff {s : Session} {limit : Nat} (h : s.ElementsWithin limit)
    (actions : List SessionAction) :
    (∀ done, done <+: actions → (s.run done).ElementsWithin limit) ↔
      ∀ done action, done ++ [action] <+: actions →
        (s.run done).itemsFound action ≤ limit := by
  constructor
  · intro hwithin done action hdone
    have hnext := hwithin _ hdone
    rw [run_append] at hnext
    exact itemsFound_le hnext
  · intro hfound done hdone
    induction done using List.reverseRecOn with
    | nil => exact h
    | append_singleton done action ih =>
        rw [run_append]
        exact (ih ((List.prefix_append done [action]).trans hdone)).act (hfound done action hdone)

/-! ## Every list of a session -/

/-- In every state that is reached, a list of documents has no more contexts than the size limit
allows, and so has every page of them; the limit is kept to even while the changes that wait on
its feed are taken in one by one. A list of elements that is asked for its contexts has one for
every item it finds: a page of no given length is within the limit, and all pages are exactly if
no more items are found than the limit. So the lists of elements are within the limit throughout a
run exactly if none of them ever finds more. -/
theorem list_sizes (config : Config) (actions : List SessionAction) :
    let limit := config.normalized.sizeLimit
    let s := (start .empty config).run actions
    (∀ id b, (id, .list (.documents b)) ∈ s.bindings →
      b.size ≤ limit ∧
        (∀ first length, (b.getContexts s.model first length).length ≤ limit) ∧
        ∀ feed ∈ b.core.sync.feeds, ∀ events, events <+: s.model.store.pending feed →
          (b.core.sync.applyAll s.model.contexts events).2.1.contexts.length ≤ limit) ∧
      (∀ id b, (id, .list (.elements b)) ∈ s.bindings →
        (∀ first length,
          (b.getContexts s.model first length).2.1.size = (b.items s.model).length) ∧
          (∀ first, (b.getContexts s.model first none).1.length ≤ limit) ∧
          ((∀ first length, (b.getContexts s.model first length).1.length ≤ limit) ↔
            (b.items s.model).length ≤ limit)) ∧
      ((∀ done, done <+: actions →
        ((start .empty config).run done).ElementsWithin limit) ↔
          ∀ done action, done ++ [action] <+: actions →
            ((start .empty config).run done).itemsFound action ≤ limit) := by
  intro limit s
  have hlimited : s.Limited := limited_run config actions
  have hconfig : s.model.config = config.normalized := config_run config actions
  have hlimit : s.model.config.sizeLimit = limit := congrArg Config.sizeLimit hconfig
  refine ⟨fun id b hb => ?_, fun id b _ => ⟨b.size_getContexts s.model, ?_, ?_⟩, ?_⟩
  · have hb := hlimited.lists _ hb b rfl
    rw [← hlimit]
    exact ⟨hb.size, fun first length => (length_page_le _ _ _ _).trans hb.size,
      fun feed hfeed events hevents =>
        hb.length_applyAll_le hlimited.consistent hlimited.orderly.ended hfeed hevents⟩
  · rw [← hlimit]
    exact b.length_getContexts_none_le s.model
  · rw [← hlimit]
    exact b.getContexts_within_iff s.model
  · exact elementsWithin_iff (fun _ _ h => absurd h List.not_mem_nil) actions

/-- A model with room for one, and an array of two items asked for a page of five. -/
def twoItems : List SessionAction :=
  [.write (.insert "C" (.object [("_id", .string "a"), ("items",
      .array [.number (.integer 1), .number (.integer 2)])])),
    .getContext "/C(a)", .bindList "items" (some ⟨"/C(a)", 0⟩) [] [],
    .on 0 (.getContexts none (some 5))]

/-- The items of an array are all brought in, and all returned, whatever the limit. -/
theorem elements_beyond_limit :
    let s := (start .empty ⟨1, false⟩).run twoItems
    s.model.config.sizeLimit = 1 ∧
      (s.binding? 0).map (fun b => b.shown.map Context.path) =
        some ["/C(a)/items[0]", "/C(a)/items[1]"] ∧
      (s.binding? 0).map
          (fun b => (b.answered s.model (.getContexts none (some 5))).map Context.path) =
        some ["/C(a)/items[0]", "/C(a)/items[1]"] := by
  decide +kernel

end Session

end LiveDocuments
