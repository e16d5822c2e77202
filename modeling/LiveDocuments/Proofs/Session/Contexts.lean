import LiveDocuments.Proofs.Path.Canonical
import LiveDocuments.Proofs.Session.Courses

/-!
# The contexts that a session keeps

A context stands for an absolute path, and a model keeps one for each path. As long as it is
only given contexts for absolute paths, it makes contexts for canonical paths, with one
exception: a context that is asked for by its path is kept under that path as it is spelt
(`Session.cached_canonical_iff`).
-/

namespace LiveDocuments

open Model LiveDocuments.Path

/-- What a path denotes under an absolute context, or the root instead, is canonical. -/
theorem Model.isCanonical_place (m : Model) (path : String) {context : Option Context}
    (h : ∀ c ∈ context, isAbsolute c.path = true) : IsCanonical (m.place path context) := by
  unfold place
  cases hresolve : m.resolve path context with
  | none => exact isCanonical_root
  | some resolved =>
      refine isCanonical_of_resolve (fun base hbase => ?_) hresolve
      obtain ⟨c, hc, rfl⟩ := Option.map_eq_some_iff.mp hbase
      exact h c hc

theorem Model.contexts_destroy_sublist (m : Model) :
    m.destroy.contexts.entries.Sublist m.contexts.entries := by
  unfold destroy
  split
  · exact .refl _
  · exact List.nil_sublist _

/-- What is asked of a binding under a context is asked under an absolute one. -/
def BindingAction.IsPlaced : BindingAction → Prop
  | .setContext context => ∀ c ∈ context, isAbsolute c.path = true
  | _ => True

/-- An action under a context is taken under an absolute one. -/
def SessionAction.IsPlaced : SessionAction → Prop
  | .createContext _ context | .read _ context | .query _ context _ _
  | .bindProperty _ context | .bindContext _ context | .bindList _ context _ _ =>
      ∀ c ∈ context, isAbsolute c.path = true
  | .on _ request => request.IsPlaced
  | _ => True

namespace Binding

/-- A binding is grounded if the contexts it makes for documents and elements are for
canonical paths, and a binding to a document if it is under an absolute context. -/
def Grounded : Binding → Prop
  | property _ => True
  | context b => b.core.sync.Hands IsCanonical ∧ ∀ c ∈ b.context, isAbsolute c.path = true
  | list (.documents b) => b.core.sync.Hands IsCanonical
  | list (.elements b) => b.core.sync.Hands IsCanonical ∧ isAbsolute b.resolved = true

theorem Grounded.hands {b : Binding} (h : b.Grounded) {request : BindingAction}
    (hrequest : request.IsPlaced) {P : String → Prop} (hP : ∀ path, IsCanonical path → P path)
    (m : Model) : b.Hands P m request := by
  have hsync : ∀ {s : Synchronizer}, s.Hands IsCanonical → s.Hands P :=
    fun hs base hbase id => hP _ (hs base hbase id)
  cases b with
  | property b => trivial
  | context b =>
      refine ⟨hsync h.1, hP _ (m.isCanonical_place b.path h.2), ?_⟩
      rintro other rfl
      exact hP _ (m.isCanonical_place b.path hrequest)
  | list b =>
      cases b with
      | documents b => exact hsync h
      | elements b =>
          exact ⟨hsync h.1, fun index => hP _ (ElementList.isCanonical_elementPath h.2 index)⟩

/-- A binding to a document stays under its context until it is set under another. -/
theorem context_act (m : Model) (request : BindingAction) (b : ContextBinding) :
    ∃ next, ((context b).act m request).1 = context next ∧
      (next.context = b.context ∨ request = .setContext next.context) := by
  have hrenew : ∀ (n : Model) (force : Bool) (b : ContextBinding),
      (b.renewElement n force).1.context = b.context := by
    intro n force b
    simp only [ContextBinding.renewElement]
    split <;> rfl
  cases request with
  | refresh force => exact ⟨_, rfl, .inl (hrenew m force b)⟩
  | announce => exact ⟨_, rfl, .inl (hrenew m true b)⟩
  | setContext other =>
      refine ⟨(b.setContext m other).1, rfl, ?_⟩
      unfold ContextBinding.setContext
      split
      · exact .inl rfl
      · refine .inr (congrArg BindingAction.setContext (Eq.symm ?_))
        rw [hrenew, (ContextBinding.requery_eq { b with context := other } m).1]
  | _ => exact ⟨_, rfl, .inl rfl⟩

theorem elements_act (m : Model) (request : BindingAction) (b : ElementList) :
    ∃ next, ((list (.elements b)).act m request).1 = list (.elements next) ∧
      next.resolved = b.resolved := by
  cases request with
  | refresh force =>
      refine ⟨(b.refresh m force).1, rfl, ?_⟩
      unfold ElementList.refresh
      split <;> rfl
  | _ => exact ⟨_, rfl, rfl⟩

theorem hands_core?_act {P : String → Prop} {b : Binding} {core next : QueryCore} {m : Model}
    {request : BindingAction} (hcore : b.core? = some core) (h : core.sync.Hands P)
    (hnext : (b.act m request).1.core? = some next) : next.sync.Hands P := by
  obtain ⟨other, hother, hmode⟩ :=
    core?_act (QueryCore.persists_mode core.sync.mode) m request hcore rfl
  obtain rfl := Option.some.inj (hnext.symm.trans hother)
  exact fun base hbase => h base (hmode.symm.trans hbase)

theorem Grounded.act {b : Binding} (h : b.Grounded) {request : BindingAction}
    (hrequest : request.IsPlaced) (m : Model) : (b.act m request).1.Grounded := by
  cases b with
  | property b => cases request <;> trivial
  | context b =>
      obtain ⟨next, hnext, hcontext⟩ := context_act m request b
      have hsync : next.core.sync.Hands IsCanonical :=
        hands_core?_act (b := context b) rfl h.1 (congrArg core? hnext)
      rw [hnext]
      refine ⟨hsync, ?_⟩
      rcases hcontext with hsame | rfl
      · rw [hsame]
        exact h.2
      · exact hrequest
  | list b =>
      cases b with
      | documents b =>
          obtain ⟨next, hnext⟩ :
              ∃ next, ((list (.documents b)).act m request).1 = list (.documents next) := by
            cases request <;> exact ⟨_, rfl⟩
          rw [hnext]
          exact hands_core?_act (b := list (.documents b)) rfl h (congrArg core? hnext)
      | elements b =>
          obtain ⟨next, hnext, hresolved⟩ := elements_act m request b
          have hsync : next.core.sync.Hands IsCanonical :=
            hands_core?_act (b := list (.elements b)) rfl h.1 (congrArg core? hnext)
          rw [hnext]
          exact ⟨hsync, hresolved ▸ h.2⟩

end Binding

/-! ## Making bindings -/

theorem ContextBinding.grounded_create {m : Model} {path : String} {context : Option Context}
    (hcontext : ∀ c ∈ context, isAbsolute c.path = true) {b : ContextBinding}
    (h : (create m path context).1 = .ok b) : (Binding.context b).Grounded := by
  cases hcomponents : m.componentsOf path context with
  | error e =>
      simp only [create, components, hcomponents] at h
      cases h
  | ok c =>
      simp only [create, components, hcomponents] at h
      obtain rfl := Except.ok.inj h
      refine ⟨fun base hbase => ?_, hcontext⟩
      rw [QueryCore.mode_run] at hbase
      cases hbase

theorem DocumentList.grounded_create {m : Model} {path : String} {sorters : List Sorter}
    {filters : List Filter} {b : DocumentList}
    (h : (create m path sorters filters).1 = .ok b) :
    (Binding.list (.documents b)).Grounded := by
  cases hcomponents : m.componentsOf path none with
  | error e =>
      simp only [create, Model.components, hcomponents] at h
      cases h
  | ok c =>
      rw [create_of_componentsOf hcomponents] at h
      obtain rfl := Except.ok.inj h
      intro base hbase id
      have hmode : (unqueried m path c sorters filters).1.core.sync.mode = .documents base :=
        (QueryCore.mode_run _ _ c sorters filters).symm.trans hbase
      obtain rfl := SyncMode.documents.inj hmode
      rw [Synchronizer.documentPath_eq]
      exact Components.isCanonical_pathOf c.collection id

theorem ElementList.grounded_create {m : Model} {path : String} {parent : Context}
    (hparent : isAbsolute parent.path = true) {sorters : List Sorter} {filters : List Filter}
    {b : ElementList} (h : (create m path parent sorters filters).1 = .ok b) :
    (Binding.list (.elements b)).Grounded := by
  cases hresolve : m.resolve path (some parent) with
  | none =>
      simp only [create, Model.components, componentsOf, hresolve] at h
      cases h
  | some resolved =>
      have hcanonical : IsCanonical resolved := by
        refine isCanonical_of_resolve (fun base hbase => ?_) hresolve
        obtain rfl := Option.some.inj hbase
        exact hparent
      cases hcomponents : Components.ofPath resolved with
      | error e =>
          simp only [create, Model.components, componentsOf, hresolve, hcomponents] at h
          cases h
      | ok c =>
          simp only [create, Model.components, componentsOf, hresolve, hcomponents,
            Option.getD_some] at h
          split at h
          · obtain rfl := Except.ok.inj h
            refine ⟨fun base hbase => ?_, hcanonical.1⟩
            rw [requery, QueryCore.mode_run] at hbase
            cases hbase
          · obtain rfl := Except.ok.inj h
            refine ⟨fun base hbase => ?_, hcanonical.1⟩
            cases hbase

namespace Session

/-- All bindings are grounded. -/
def Grounded (s : Session) : Prop := ∀ entry ∈ s.bindings, entry.2.Grounded

theorem grounded_of_made? {s : Session} {action : SessionAction} (haction : action.IsPlaced)
    {b : Binding} (h : s.made? action = some b) : b.Grounded := by
  cases makes_of_made? h with
  | property hmade => trivial
  | context hmade => exact ContextBinding.grounded_create haction hmade
  | documents hmade => exact DocumentList.grounded_create hmade
  | elements hmade => exact ElementList.grounded_create (haction _ rfl) hmade

theorem Grounded.act {s : Session} (h : s.Grounded) {action : SessionAction}
    (haction : action.IsPlaced) : (s.act action).Grounded := by
  intro entry hentry
  rcases mem_bindings_act hentry with ⟨hold, -⟩ | ⟨b, hmade, rfl⟩ | ⟨id, request, b, rfl, hb, rfl⟩
  · exact h entry hold
  · exact grounded_of_made? haction hmade
  · exact (h (id, b) (mem_of_binding? hb)).act haction s.model

/-- Contexts that are not asked for by their path are made for canonical paths. -/
theorem Grounded.hands {s : Session} (h : s.Grounded) {action : SessionAction}
    (haction : action.IsPlaced) {P : String → Prop} (hP : ∀ path, IsCanonical path → P path)
    (hasked : ∀ path, action = .getContext path → path.toList.head? = some '/' → P path) :
    s.Hands P action := by
  cases action with
  | getContext path => exact hasked path rfl
  | createContext path context => exact hP _ (s.model.isCanonical_place path haction)
  | bindContext path context => exact hP _ (s.model.isCanonical_place path haction)
  | on id request =>
      intro b hb
      exact (h (id, b) (mem_of_binding? hb)).hands haction hP s.model
  | _ => trivial

/-- The contexts that are kept are for paths with the property, one for each path, and so
will be those that bindings make. -/
structure Caches (P : String → Prop) (s : Session) : Prop where
  orderly : s.Orderly
  grounded : s.Grounded
  cached : ∀ c ∈ s.model.contexts.entries, P c.path
  distinct : (s.model.contexts.entries.map Context.path).Nodup

variable {P : String → Prop}

theorem Caches.act {s : Session} (h : s.Caches P) (hP : ∀ path, IsCanonical path → P path)
    {action : SessionAction} (haction : action.IsPlaced)
    (hasked : ∀ path, action = .getContext path → path.toList.head? = some '/' → P path) :
    (s.act action).Caches P := by
  by_cases hdestroy : action = .destroy
  · subst hdestroy
    have hkept := s.model.contexts_destroy_sublist
    exact ⟨h.orderly.act _, h.grounded.act haction, fun c hc => h.cached c (hkept.subset hc),
      h.distinct.sublist (hkept.map Context.path)⟩
  · have hcourse := course_act h.orderly.labelled h.orderly.sound hdestroy
      (fun collection id => hP _ (Components.isCanonical_pathOf collection id))
      (h.grounded.hands haction hP hasked)
    exact ⟨h.orderly.act action, h.grounded.act haction,
      fun c hc => (hcourse.mem_contexts hc).elim (h.cached c) id,
      hcourse.nodup_contexts h.distinct⟩

/-! ## Runs -/

theorem Caches.run {s : Session} (h : s.Caches P) (hP : ∀ path, IsCanonical path → P path)
    {actions : List SessionAction} (hplaced : ∀ action ∈ actions, action.IsPlaced)
    (hasked : ∀ path, .getContext path ∈ actions → path.toList.head? = some '/' → P path) :
    (s.run actions).Caches P := by
  induction actions generalizing s with
  | nil => exact h
  | cons action rest ih =>
      have hact := h.act hP (hplaced action List.mem_cons_self)
        fun path heq => hasked path (heq ▸ List.mem_cons_self)
      exact ih hact (fun other hother => hplaced other (List.mem_cons_of_mem action hother))
        fun path hpath => hasked path (List.mem_cons_of_mem action hpath)

theorem caches_run (config : Config) (hP : ∀ path, IsCanonical path → P path)
    {actions : List SessionAction} (hplaced : ∀ action ∈ actions, action.IsPlaced)
    (hasked : ∀ path, .getContext path ∈ actions → path.toList.head? = some '/' → P path) :
    ((start .empty config).run actions).Caches P :=
  Caches.run ⟨orderly_run config [], fun _ h => absurd h List.not_mem_nil,
    fun _ h => absurd h List.not_mem_nil, List.nodup_nil⟩ hP hplaced hasked

theorem cached_getContext (s : Session) {path : String} (h : path.toList.head? = some '/') :
    ∃ c ∈ (s.act (.getContext path)).model.contexts.entries, c.path = path := by
  simp only [act, getContext, if_pos h]
  exact ⟨_, List.mem_of_find?_eq_some (s.model.contexts.get?_getOrCreate_self path),
    s.model.contexts.path_getOrCreate path⟩

/-- In every state of a run under absolute contexts, all contexts that are kept are for absolute
paths, one for each path. All of them are for canonical paths throughout the run exactly if every
context that was asked for by its path was asked for by a canonical one, and then no two of them
are spellings of one path. -/
theorem cached_canonical_iff (config : Config) (actions : List SessionAction)
    (hplaced : ∀ action ∈ actions, action.IsPlaced) :
    let cached := fun done => ((start .empty config).run done).model.contexts.entries
    let asked := ∀ path, .getContext path ∈ actions → path.toList.head? = some '/' →
      IsCanonical path
    (∀ done, done <+: actions → (∀ c ∈ cached done, isAbsolute c.path = true) ∧
      ((cached done).map Context.path).Nodup) ∧
    ((∀ done, done <+: actions → ∀ c ∈ cached done, IsCanonical c.path) ↔ asked) ∧
    (asked → ∀ done, done <+: actions → ∀ c ∈ cached done, ∀ d ∈ cached done,
      ∀ legacySyntax context, Path.resolve legacySyntax c.path context =
        Path.resolve legacySyntax d.path context → c = d) := by
  intro cached asked
  have hrun : ∀ {P : String → Prop}, (∀ path, IsCanonical path → P path) →
      (∀ path, .getContext path ∈ actions → path.toList.head? = some '/' → P path) →
      ∀ done, done <+: actions → ((start .empty config).run done).Caches P :=
    fun hP hasked done hdone => caches_run config hP
      (fun action haction => hplaced action (hdone.subset haction))
      fun path hpath => hasked path (hdone.subset hpath)
  have habsolute : ∀ path : String, path.toList.head? = some '/' → isAbsolute path = true := by
    intro path hpath
    obtain ⟨rest, hrest⟩ := List.head?_eq_some_iff.mp hpath
    rw [isAbsolute, hrest]
    rfl
  have hkept := fun done hdone => hrun (P := fun path => isAbsolute path = true)
    (fun path hpath => hpath.1) (fun path _ => habsolute path) done hdone
  refine ⟨fun done hdone => ⟨(hkept done hdone).cached, (hkept done hdone).distinct⟩,
    ⟨?_, fun hasked done hdone => (hrun (fun _ => id) hasked done hdone).cached⟩, ?_⟩
  · intro hcanonical path hpath hroot
    obtain ⟨before, after, rfl⟩ := List.append_of_mem hpath
    obtain ⟨c, hc, rfl⟩ := ((start .empty config).run before).cached_getContext hroot
    refine hcanonical (before ++ [.getContext c.path]) ⟨after, by simp⟩ c ?_
    show c ∈ ((start .empty config).run (before ++ [.getContext c.path])).model.contexts.entries
    rw [run_append]
    exact hc
  · intro hasked done hdone c hc d hd legacySyntax context hsame
    have hcaches := hrun (fun _ => id) hasked done hdone
    rw [(hcaches.cached c hc).2, (hcaches.cached d hd).2] at hsame
    exact List.inj_on_of_nodup_map hcaches.distinct hc hd (Option.some.inj hsame)

/-- One place, by a context and a relative path and by its canonical path. -/
def spelled : List SessionAction :=
  [.createContext "items/" (some ⟨"/C(a)", 0⟩), .getContext "/C(a)/items"]

theorem cached_canonical_spelled :
    (∀ action ∈ spelled, action.IsPlaced) ∧
      ∀ done, done <+: spelled →
        ∀ c ∈ ((start .empty .default).run done).model.contexts.entries, IsCanonical c.path := by
  have hplaced : ∀ action ∈ spelled, action.IsPlaced := by
    intro action haction
    rcases List.mem_pair.mp haction with rfl | rfl
    · intro c hc
      obtain rfl := Option.some.inj hc
      rfl
    · trivial
  refine ⟨hplaced, (cached_canonical_iff .default spelled hplaced).2.1.mpr ?_⟩
  intro path hpath _
  rcases List.mem_pair.mp hpath with heq | heq
  · cases heq
  · obtain rfl := SessionAction.getContext.inj heq
    exact isCanonical_iff.mpr ⟨by decide, by decide⟩

/-- A path asked for with a slash at its end gets a context of its own. -/
theorem trailing_slash_kept :
    (((start .empty .default).run [.getContext "/C", .getContext "/C/"]).model.contexts.entries.map
        Context.path = ["/C", "/C/"]) ∧
      Path.resolve false "/C/" none = some "/C" ∧ ¬ IsCanonical "/C/" := by
  refine ⟨by decide +kernel, by decide +kernel, fun h => ?_⟩
  have hself := h.2 false none
  exact absurd hself (by decide +kernel)

end Session

end LiveDocuments
