import LiveDocuments.Proofs.Binding.Instances
import LiveDocuments.Proofs.Session.Making

/-!
# One instance for each path over a run

Which paths the actions of a session ask for is told by `Session.requested`, and which
contexts are handed out in a run, whether as an answer, by a binding or by the cache, by
`Session.handedOut`. As long as the model is not destroyed, what was handed out stays in the
cache. So two contexts that were handed out are one instance exactly if they have one path,
and as many are held as different paths were asked for. After the model is destroyed, no
instance is handed out again (`Session.one_instance_per_path`).
-/

namespace LiveDocuments

open Model

/-! ## Making bindings -/

/-- The contexts that a binding shows which was made, if it was. -/
def Binding.shownIfMade (made : Except BindingError Binding) : List Context :=
  (made.toOption.map shown).getD []

theorem PropertyBinding.yields_create (m : Model) (path : String) (context : Option Context) :
    m.Yields
      (if (m.valueFaultAt? path context).isNone then m.register.2.followed path context else [])
      (create m path context).2 := by
  have hread := yields_readAt m.register.2 path context
  have hregistered : m.register.2.contexts = m.contexts := rfl
  by_cases hplace : path.toList.head? = some '?' ∨ (m.resolve path context).isNone
  · simp only [create, checkPath, valueFaultAt?, if_pos hplace, Option.isNone_none, if_true]
    exact hread.start hregistered
  · simp only [create, checkPath, valueFaultAt?, if_neg hplace, components, faultAt?]
    cases m.componentsOf path context with
    | error e => exact .of_eq rfl (List.Subset.refl _)
    | ok c => exact hread.start hregistered

theorem ContextBinding.supplies_create {m : Model} (hsound : m.ledger.Sound) (path : String)
    (context : Option Context) :
    m.Supplies (if (m.faultAt? path context).isNone then [m.place path context] else []) []
      (Binding.shownIfMade ((create m path context).1.map .context)) (create m path context).2 := by
  cases hcomponents : m.componentsOf path context with
  | error e =>
      simp only [create, Model.components, hcomponents, faultAt?]
      exact .of_eq rfl (List.Subset.refl _)
  | ok c =>
      simp only [create, Model.components, hcomponents, faultAt?]
      have hnew := Supplies.contextFor m (m.place path context)
      rw [← (OnlyAsks.createContext m path context).ledger_eq] at hsound
      have hrun := (QueryCore.create (m.createContext path context).2 .single).1.supplies_run
        (m := (QueryCore.create (m.createContext path context).2 .single).2)
        hsound.registering c [] []
      rw [QueryCore.sought_eq_nil fun base hbase => by cases hbase] at hrun
      exact hnew.rest hrun.draws (List.Subset.refl _)

theorem DocumentList.supplies_create {m : Model} (hsound : m.ledger.Sound) (path : String)
    (sorters : List Sorter) (filters : List Filter) :
    m.Supplies
      (match m.componentsOf path none with
        | .ok c => (m.found c sorters filters).map fun r => Components.pathOf c.collection r.1
        | .error _ => []) []
      (Binding.shownIfMade (((create m path sorters filters).1.map .documents).map .list))
      (create m path sorters filters).2 := by
  cases hcomponents : m.componentsOf path none with
  | error e =>
      simp only [create, Model.components, hcomponents]
      exact .of_eq rfl (List.Subset.refl _)
  | ok c =>
      have hrequery := (unqueried m path c sorters filters).1.supplies_requery
        (m := (unqueried m path c sorters filters).2) hsound.registering
      have hkept : m.Keeps (unqueried m path c sorters filters).2 :=
        ⟨rfl, id, rfl, rfl, rfl, rfl⟩
      have hsought : (unqueried m path c sorters filters).1.core.sought
          (unqueried m path c sorters filters).2 c sorters filters =
            (m.found c sorters filters).map fun r => Components.pathOf c.collection r.1 := by
        rw [← hkept.found_eq c sorters filters, List.map_eq_flatMap]
        rfl
      rw [create_of_componentsOf hcomponents]
      simp only [← hsought]
      have hcontexts : (unqueried m path c sorters filters).2.contexts = m.contexts := rfl
      exact hrequery.start hcontexts (List.Subset.refl _)

theorem ElementList.supplies_create {m : Model} (hsound : m.ledger.Sound) (path : String)
    (parent : Context) (sorters : List Sorter) (filters : List Filter) :
    m.Supplies [] []
      (Binding.shownIfMade (((create m path parent sorters filters).1.map .elements).map .list))
      (create m path parent sorters filters).2 := by
  cases hcomponents : m.componentsOf path (some parent) with
  | error e =>
      simp only [create, Model.components, hcomponents]
      exact .of_eq rfl (List.Subset.refl _)
  | ok c =>
      simp only [create, Model.components, hcomponents]
      split
      · have hrun := (QueryCore.create m .elements).1.supplies_run
          (m := (QueryCore.create m .elements).2) hsound.registering c [] []
        rw [QueryCore.sought_eq_nil fun base hbase => by cases hbase] at hrun
        exact .of_eq hrun.draws (List.Subset.refl _)
      · exact .of_eq rfl (List.Subset.refl _)

namespace Session

/-! ## What actions ask for -/

/-- The contexts that are the answer to an action or on the way to it. -/
def answered (s : Session) : SessionAction → List Context
  | .getContext path => (s.model.getContext path).1.toOption.toList
  | .createContext path context => [(s.model.createContext path context).1]
  | .read path context => s.model.followed path context
  | .bindProperty path context =>
      if (s.model.valueFaultAt? path context).isNone then
        s.model.register.2.followed path context
      else []
  | .on id request => ((s.binding? id).map fun b => b.answered s.model request).getD []
  | _ => []

/-- The paths that an action asks for. -/
def requested (s : Session) : SessionAction → List String
  | .getContext path => if path.toList.head? = some '/' then [path] else []
  | .createContext path context => [s.model.place path context]
  | .bindContext path context =>
      if (s.model.faultAt? path context).isNone then [s.model.place path context] else []
  | .bindList path none sorters filters =>
      match s.model.componentsOf path none with
      | .ok c =>
          (s.model.found c sorters filters).map fun r => Components.pathOf c.collection r.1
      | .error _ => []
  | .on id request => ((s.binding? id).map fun b => b.requested s.model request).getD []
  | action => (s.answered action).map Context.path

/-- The contexts that bindings show. -/
def shown (s : Session) : List Context := s.bindings.flatMap fun entry => entry.2.shown

/-- The binding that an action makes or asks, as it is afterwards. -/
def concerned? (s : Session) : SessionAction → Option Binding
  | .on id request => (s.binding? id).map fun b => (b.act s.model request).1
  | action => s.made? action

/-- Only the binding that an action makes or asks may show something else than before. -/
theorem shown_act_subset (s : Session) (action : SessionAction) :
    (s.act action).shown ⊆ ((s.concerned? action).map Binding.shown).getD [] ++ s.shown := by
  intro c hc
  obtain ⟨entry, hentry, hc⟩ := List.mem_flatMap.mp hc
  refine List.mem_append.mpr ?_
  rcases mem_bindings_act hentry with ⟨hold, -⟩ | ⟨b, hmade, rfl⟩ | ⟨id, request, b, rfl, hb, rfl⟩
  · exact .inr (List.mem_flatMap.mpr ⟨entry, hold, hc⟩)
  · left
    have hconcerned : s.concerned? action = some b := by
      unfold concerned?
      split
      · cases hmade
      · exact hmade
    rw [hconcerned]
    exact hc
  · left
    rw [concerned?, hb]
    exact hc

/-- The contexts that an action brings are held for the paths it asks for, or were shown
before. -/
theorem supplies_concerned {s : Session} (hsound : s.model.ledger.Sound) {action : SessionAction}
    (h : action ≠ .destroy) :
    s.model.Supplies (s.requested action) s.shown
      (s.answered action ++ ((s.concerned? action).map Binding.shown).getD [])
      (s.act action).model := by
  have hrest : ∀ n : Model, n.contexts = s.model.contexts → s.model.Supplies [] s.shown [] n :=
    fun n hn => .of_eq hn (List.nil_subset _)
  cases action with
  | write write => exact hrest _ rfl
  | refuse find observe => exact hrest _ rfl
  | getContext path =>
      simp only [requested, answered, act, withModel, getContext]
      split
      · exact (Supplies.contextFor s.model path).weaken (List.nil_subset _)
          (List.Subset.refl _)
      · exact hrest _ rfl
  | createContext path context =>
      exact (Supplies.contextFor s.model (s.model.place path context)).weaken
        (List.nil_subset _) (List.Subset.refl _)
  | read path context =>
      exact Supplies.weaken (s.model.yields_getProperty path context) (List.nil_subset _)
        (List.append_subset.mpr ⟨List.Subset.refl _, List.nil_subset _⟩)
  | query path context sorters filters =>
      have hquery := s.model.contexts_runQuery path context sorters filters
      simp only [act]
      split <;> next heq =>
        rw [heq] at hquery
        exact hrest _ hquery
  | refresh => exact hrest _ (OnlyRaises.refresh s.model).contexts_eq
  | destroy => exact absurd rfl h
  | bindProperty path context =>
      have hnone : ((s.concerned? (.bindProperty path context)).map Binding.shown).getD [] =
          [] := by
        simp only [concerned?, made?]
        cases (PropertyBinding.create s.model path context).1 <;> rfl
      rw [act, bindProperty, model_bind, hnone, List.append_nil]
      exact Supplies.weaken (PropertyBinding.yields_create s.model path context)
        (List.nil_subset _) (List.Subset.refl _)
  | bindContext path context =>
      rw [act, bindContext, model_bind]
      exact (ContextBinding.supplies_create hsound path context).weaken (List.nil_subset _)
        (List.Subset.refl _)
  | bindList path parent sorters filters =>
      rw [act, bindList, model_bind]
      cases parent with
      | none =>
          exact (DocumentList.supplies_create hsound path sorters filters).weaken
            (List.nil_subset _) (List.Subset.refl _)
      | some parent =>
          exact (ElementList.supplies_create hsound path parent sorters filters).weaken
            (List.nil_subset _) (List.Subset.refl _)
  | on id request =>
      cases hbinding : s.binding? id with
      | none =>
          simp only [requested, answered, concerned?, act, hbinding]
          exact hrest _ rfl
      | some b =>
          simp only [requested, answered, concerned?, act, hbinding]
          refine (b.supplies_act hsound request).weaken (fun c hc => ?_) (List.Subset.refl _)
          exact List.mem_flatMap.mpr ⟨(id, b), mem_of_binding? hbinding, hc⟩
  | drop id =>
      cases hbinding : s.binding? id with
      | none =>
          simp only [act, drop, hbinding]
          exact hrest _ rfl
      | some b =>
          simp only [act, drop, hbinding]
          exact hrest _ (b.contexts_drop s.model)

/-- What an action asks for is asked for between the models before and after it, and whatever
bindings show comes from the cache. -/
theorem supplies_act {s : Session} (hsound : s.model.ledger.Sound) {action : SessionAction}
    (h : action ≠ .destroy) :
    s.model.Supplies (s.requested action) s.shown (s.answered action ++ (s.act action).shown)
      (s.act action).model := by
  have hsupplied := supplies_concerned hsound h
  refine ⟨hsupplied.draws, fun hshown => ?_⟩
  obtain ⟨hanswered, hconcerned⟩ := List.append_subset.mp (hsupplied.cached hshown)
  refine List.append_subset.mpr
    ⟨hanswered, List.Subset.trans (s.shown_act_subset action) ?_⟩
  exact List.append_subset.mpr
    ⟨hconcerned, (hsupplied.draws.supplies s.shown).cached hshown⟩

/-! ## Runs -/

/-- The paths that are asked for in a run, in order. -/
def requestedBy (s : Session) : List SessionAction → List String
  | [] => []
  | action :: rest => s.requested action ++ (s.act action).requestedBy rest

/-- The contexts that are there to be had: those the cache holds and those that bindings
show. -/
def inView (s : Session) : List Context := s.model.contexts.entries ++ s.shown

/-- The contexts that are handed out in a run: as the answer to an action or on the way to
it, by the cache, or by a binding. -/
def handedOut (s : Session) : List SessionAction → List Context
  | [] => s.inView
  | action :: rest => s.inView ++ (s.answered action ++ (s.act action).handedOut rest)

/-- All that bindings show is held by the cache, which has one instance for each path. -/
structure Rooted (s : Session) : Prop where
  orderly : s.Orderly
  interned : s.model.contexts.IsInterned
  cached : s.shown ⊆ s.model.contexts.entries

namespace Rooted

variable {s : Session} {actions : List SessionAction}

theorem start (config : Config) : (Session.start .empty config).Rooted :=
  ⟨orderly_run config [], .empty, List.nil_subset _⟩

theorem act (h : s.Rooted) {action : SessionAction} (haction : action ≠ .destroy) :
    (s.act action).Rooted := by
  have hsupplied := supplies_act h.orderly.sound haction
  refine ⟨h.orderly.act action, ?_, (List.append_subset.mp (hsupplied.cached h.cached)).2⟩
  rw [show (s.act action).model.contexts = _ from hsupplied.draws]
  exact h.interned.getOrCreateAll _

theorem inView_subset (h : s.Rooted) : s.inView ⊆ s.model.contexts.entries :=
  List.append_subset.mpr ⟨List.Subset.refl _, h.cached⟩

theorem run (h : s.Rooted) (hend : .destroy ∉ actions) : (s.run actions).Rooted := by
  induction actions generalizing s with
  | nil => exact h
  | cons action rest ih =>
      obtain ⟨haction, hrest⟩ := List.ne_and_not_mem_of_not_mem_cons hend
      exact ih (h.act haction.symm) hrest

theorem draws_run (h : s.Rooted) (hend : .destroy ∉ actions) :
    s.model.Draws (s.requestedBy actions) (s.run actions).model := by
  induction actions generalizing s with
  | nil => rfl
  | cons action rest ih =>
      obtain ⟨haction, hrest⟩ := List.ne_and_not_mem_of_not_mem_cons hend
      have hact := (supplies_act h.orderly.sound haction.symm).draws
      exact hact.trans (ih (h.act haction.symm) hrest)

theorem handedOut_subset (h : s.Rooted) (hend : .destroy ∉ actions) :
    s.handedOut actions ⊆ (s.run actions).model.contexts.entries := by
  induction actions generalizing s with
  | nil => exact h.inView_subset
  | cons action rest ih =>
      obtain ⟨haction, hrest⟩ := List.ne_and_not_mem_of_not_mem_cons hend
      have hnext := h.act haction.symm
      have hkept := (hnext.draws_run hrest).keeps_entries.subset
      have hsupplied := supplies_act h.orderly.sound haction.symm
      have hview := List.Subset.trans h.inView_subset hsupplied.draws.keeps_entries.subset
      have hanswered := (List.append_subset.mp (hsupplied.cached h.cached)).1
      exact List.append_subset.mpr
        ⟨List.Subset.trans hview hkept,
          List.append_subset.mpr ⟨List.Subset.trans hanswered hkept, ih hnext hrest⟩⟩

end Rooted

/-- Instances that are numbered from a number on stay so, even if the model is destroyed. -/
theorem isFrom_act {s : Session} (hs : s.Orderly) {n : Nat} (h : s.model.contexts.IsFrom n)
    (action : SessionAction) : (s.act action).model.contexts.IsFrom n := by
  by_cases haction : action = .destroy
  · subst haction
    show s.model.destroy.contexts.IsFrom n
    unfold destroy
    split
    · exact h
    · exact .clear h.next
  · rw [show (s.act action).model.contexts = _ from (supplies_act hs.sound haction).draws]
    exact h.getOrCreateAll _

theorem isFrom_destroy {s : Session} (halive : s.model.destroyed = false) :
    (s.act .destroy).model.contexts.IsFrom s.model.contexts.nextSerial := by
  show s.model.destroy.contexts.IsFrom _
  rw [destroy, halive]
  exact .clear (Nat.le_refl _)

theorem destroyed_run {s : Session} (hs : s.Orderly) {actions : List SessionAction}
    (hend : .destroy ∉ actions) : (s.run actions).model.destroyed = s.model.destroyed := by
  induction actions generalizing s with
  | nil => rfl
  | cons action rest ih =>
      obtain ⟨haction, hrest⟩ := List.ne_and_not_mem_of_not_mem_cons hend
      exact (ih (hs.act action) hrest).trans (hs.course haction.symm).settings_eq.1

/-- Over a run in which the model is not destroyed, two contexts that were handed out, by whatever
route and at whatever time, are one instance exactly if they have one path. The cache holds as
many contexts as different paths were asked for so far, and none is ever taken out. Once the model
is destroyed, whatever happens then, the cache returns no instance that was handed out before. -/
theorem one_instance_per_path (config : Config) (actions : List SessionAction)
    (hend : .destroy ∉ actions) :
    let start := start .empty config
    let cache := fun actions => (start.run actions).model.contexts
    let handedOut := start.handedOut actions
    (∀ c ∈ handedOut, ∀ d ∈ handedOut, c.isSame d = true ↔ c.path = d.path) ∧
      (∀ done, done <+: actions →
        (cache done).size = (start.requestedBy done).dedup.length) ∧
      (∀ done more, done ++ more <+: actions →
        (cache done).entries <+: (cache (done ++ more)).entries ∧
          (cache done).size ≤ (cache (done ++ more)).size) ∧
      (∀ after path, ∀ c ∈ handedOut,
        c.isSame ((cache (actions ++ .destroy :: after)).getOrCreate path).1 = false) := by
  intro start cache handedOut
  have hstart : start.Rooted := .start config
  have hreached := hstart.run hend
  have hheld := hstart.handedOut_subset hend
  refine ⟨?_, ?_, ?_, ?_⟩
  · intro c hc d hd
    exact hreached.interned.isSame_iff (hheld hc) (hheld hd)
  · intro done hdone
    have hdraws := hstart.draws_run fun h => hend (hdone.subset h)
    rw [show cache done = _ from hdraws]
    exact ContextCache.size_getOrCreateAll_empty _
  · intro done more hmore
    have hdestroy : .destroy ∉ done ++ more := fun h => hend (hmore.subset h)
    have hstays : (cache done).entries <+: (cache (done ++ more)).entries := by
      have hdone := hstart.run fun h => hdestroy (List.mem_append_left more h)
      show _ <+: (start.run (done ++ more)).model.contexts.entries
      rw [run_append]
      exact (hdone.draws_run fun h => hdestroy (List.mem_append_right done h)).keeps_entries
    exact ⟨hstays, hstays.length_le⟩
  · intro after path c hc
    have halive := destroyed_run hstart.orderly hend
    have hfrom : ((start.run actions).act .destroy).Orderly ∧
        ((start.run actions).act .destroy).model.contexts.IsFrom
          (start.run actions).model.contexts.nextSerial :=
      ⟨hreached.orderly.act .destroy, isFrom_destroy halive⟩
    have hlast := run_of_act
      (fun s => s.Orderly ∧ s.model.contexts.IsFrom (start.run actions).model.contexts.nextSerial)
      (fun s hs action => ⟨hs.1.act action, isFrom_act hs.1 hs.2 action⟩) hfrom after
    show c.isSame ((start.run (actions ++ .destroy :: after)).model.contexts.getOrCreate
      path).1 = false
    rw [run_append, run_cons]
    exact hlast.2.not_isSame (hreached.interned.numbered c (hheld hc)) path

/-- A document by way of a list, of a binding and of its path, and its items. -/
def gathered : List SessionAction :=
  [.write (.insert "C" (.object [("_id", .string "a"), ("items", .array [.string "x"])])),
    .bindList "/C" none [] [], .bindContext "/C(a)" none,
    .bindList "items" (some ⟨"/C(a)", 0⟩) [] [], .on 2 (.getContexts none none),
    .getContext "/C(a)"]

theorem one_instance_per_path_gathered :
    let start := start .empty .default
    .destroy ∉ gathered ∧
      start.requestedBy gathered = ["/C(a)", "/C(a)", "/C(a)/items[0]", "/C(a)"] ∧
      (start.run gathered).model.contexts.size = 2 ∧
      ∀ c ∈ start.handedOut gathered, c.path = "/C(a)" → c.isSame ⟨"/C(a)", 0⟩ = true := by
  have hend : .destroy ∉ gathered := by simp [gathered]
  have hrequested : (start .empty .default).requestedBy gathered =
      ["/C(a)", "/C(a)", "/C(a)/items[0]", "/C(a)"] := by decide +kernel
  obtain ⟨hsame, hsize, -⟩ := one_instance_per_path .default gathered hend
  refine ⟨hend, hrequested, ?_, fun c hc hpath => (hsame c hc ⟨"/C(a)", 0⟩ ?_).mpr hpath⟩
  · rw [hsize gathered List.prefix_rfl, hrequested]
    decide
  · decide +kernel

end Session

end LiveDocuments
