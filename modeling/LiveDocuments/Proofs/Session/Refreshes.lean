import LiveDocuments.Proofs.Binding.Refreshes
import LiveDocuments.Proofs.Session.Courses

/-!
# Whom refreshes reach

A model in use knows exactly the bindings that are kept, in the order in which they were made
(`Session.Known`): a new one comes last, and one that is let go is taken out where it stands.
So whatever lists pass on as a refresh is heard once on each binding that is kept, whichever
came and went before (`Session.refreshes_reach_kept`).
-/

namespace LiveDocuments

open Model

/-- The bindings stay in ascending order of their numbers, whatever move is made. -/
theorem Move.ascending {l l' : Ledger} {followers others : Followers} {made : List Attempt}
    (h : Move l followers made l' others)
    (hnumbered : ∀ entry ∈ followers, entry.1 < l.nextBinding)
    (hascending : (followers.map Prod.fst).Pairwise (· < ·)) :
    (others.map Prod.fst).Pairwise (· < ·) := by
  cases h with
  | rest => exact hascending
  | made hturn =>
      rw [List.map_append, List.pairwise_append]
      refine ⟨hascending, List.pairwise_singleton _ _, fun id hid next hnext => ?_⟩
      rcases List.mem_map.mp hid with ⟨entry, hentry, rfl⟩
      obtain rfl := List.mem_singleton.mp hnext
      exact hnumbered entry hentry
  | asked hturn =>
      rw [List.map_append, List.map_cons] at hascending ⊢
      exact hascending
  | dropped hturn hnone =>
      refine hascending.sublist (List.Sublist.map Prod.fst ?_)
      exact (List.sublist_cons_self _ _).append_left _

namespace Session

/-- Every list that is kept is about many. -/
def Plural (s : Session) : Prop := ∀ entry ∈ s.bindings, entry.2.IsPlural

theorem isPlural_of_made? {s : Session} {action : SessionAction} {b : Binding}
    (h : s.made? action = some b) : b.IsPlural := by
  cases makes_of_made? h with
  | documents hmade => exact DocumentList.isPlural_create hmade
  | elements hmade => exact ElementList.isPlural_create hmade
  | _ => exact fun hlist => absurd hlist Bool.false_ne_true

theorem Plural.act {s : Session} (h : s.Plural) (action : SessionAction) :
    (s.act action).Plural := by
  intro entry hentry
  rcases mem_bindings_act hentry with ⟨hold, -⟩ | ⟨b, hmade, rfl⟩ | ⟨id, request, b, _, hb, rfl⟩
  · exact h entry hold
  · exact isPlural_of_made? hmade
  · exact (h (id, b) (mem_of_binding? hb)).act s.model request

/-! ## The bindings that a model knows -/

/-- The numbers of the bindings that are kept. -/
def kept (s : Session) : List BindingId := s.bindings.map Prod.fst

theorem kept_put (s : Session) (id : BindingId) (b : Binding) (m : Model) :
    (s.put id b m).kept = s.kept := by
  rw [kept, put, List.map_map]
  refine List.map_congr_left fun entry _ => ?_
  by_cases hid : entry.1 = id <;> simp [hid]

theorem binding?_put_self {s : Session} {id : BindingId} {b : Binding}
    (h : s.binding? id = some b) (other : Binding) (m : Model) :
    (s.put id other m).binding? id = some other := by
  obtain ⟨entry, hentry, -⟩ := Option.map_eq_some_iff.mp h
  have hid : entry.1 = id := by simpa using List.find?_some hentry
  have hnumber : ((fun entry : BindingId × Binding => decide (entry.1 = id)) ∘
      fun entry => if entry.1 = id then (id, other) else entry) =
        fun entry => decide (entry.1 = id) := by
    funext entry
    by_cases hother : entry.1 = id <;> simp [hother]
  rw [binding?, put, List.find?_map, hnumber, hentry, Option.map_some, if_pos hid]
  rfl

theorem members_bind {s : Session} (h : s.model.members = s.kept)
    {made : Except BindingError Binding × Model} (hmade : Binding.Enrols s.model made) :
    (s.bind made).2.model.members = (s.bind made).2.kept := by
  obtain ⟨result, n⟩ := made
  cases result with
  | error e => exact hmade.trans h
  | ok b =>
      have hkept : (s.bind (.ok b, n)).2.kept = s.kept ++ [b.id] := List.map_append
      rw [hkept, ← h]
      exact hmade

theorem members_act {s : Session} (hs : s.Labelled) (h : s.model.members = s.kept)
    {action : SessionAction} (haction : action ≠ .destroy) :
    (s.act action).model.members = (s.act action).kept := by
  cases action with
  | write write => exact h
  | refuse find observe => exact h
  | getContext path => exact (OnlyAsks.getContext s.model path).members_eq.trans h
  | createContext path context =>
      exact (OnlyAsks.createContext s.model path context).members_eq.trans h
  | read path context => exact (OnlyAsks.getProperty s.model path context).members_eq.trans h
  | query path context sorters filters =>
      have hquery := OnlyAsks.runQuery s.model path context sorters filters
      simp only [act]
      split
      · next heq =>
          rw [heq] at hquery
          exact hquery.members_eq.trans h
      · next cursor n heq =>
          rw [heq] at hquery
          exact (hquery.trans (.fetch n cursor)).members_eq.trans h
  | refresh => exact (OnlyRaises.refresh s.model).members_eq.trans h
  | destroy => exact absurd rfl haction
  | bindProperty path context =>
      exact members_bind h (PropertyBinding.enrols s.model path context)
  | bindContext path context =>
      exact members_bind h (ContextBinding.enrols s.model path context)
  | bindList path parent sorters filters =>
      cases parent with
      | none =>
          have hmade := DocumentList.enrols s.model path sorters filters
          rw [← Binding.map_map_list] at hmade
          exact members_bind h hmade
      | some parent =>
          have hmade := ElementList.enrols s.model path parent sorters filters
          rw [← Binding.map_map_list] at hmade
          exact members_bind h hmade
  | on id request =>
      cases hb : s.binding? id with
      | none =>
          simp only [act, hb]
          exact h
      | some b =>
          simp only [act, hb, kept_put]
          exact (b.members_act s.model request).trans h
  | drop id =>
      cases hb : s.binding? id with
      | none =>
          simp only [act, drop, hb]
          exact h
      | some b =>
          simp only [act, drop, hb, kept, Binding.members_drop, hs.id_eq hb, h, List.filter_map]
          rfl

/-- A model in use knows the bindings that are kept, and these stand in the order in which
they were made. -/
structure Known (s : Session) : Prop where
  members : s.model.destroyed = false → s.model.members = s.kept
  ascending : s.kept.Pairwise (· < ·)

theorem Known.act {s : Session} (h : s.Known) (hs : s.Orderly) (action : SessionAction) :
    (s.act action).Known := by
  obtain ⟨attempts, haccounts⟩ := hs.accounted
  by_cases hdestroy : action = .destroy
  · subst hdestroy
    refine ⟨fun halive => ?_, h.ascending⟩
    have hended := (haccounts.act .destroy).2.mpr (.inr rfl)
    exact absurd (halive.symm.trans hended) Bool.false_ne_true
  · refine ⟨fun halive => ?_, ?_⟩
    · have hsame := (hs.course hdestroy).settings_eq.1
      exact members_act hs.labelled (h.members (hsame.symm.trans halive)) hdestroy
    · have hmove := moves_act haccounts.distinct_bindings hdestroy
      have hascending := hmove.ascending haccounts.numbered
        ((map_fst_followers s).symm ▸ h.ascending)
      rwa [map_fst_followers] at hascending

theorem known_run (config : Config) (actions : List SessionAction) :
    let s := (start .empty config).run actions
    s.Orderly ∧ s.Known ∧ s.Plural :=
  run_of_act (fun s => s.Orderly ∧ s.Known ∧ s.Plural)
    (fun _ h action => ⟨h.1.act action, h.2.1.act h.1 action, h.2.2.act action⟩)
    ⟨orderly_run config [], ⟨fun _ => rfl, .nil⟩, fun _ h => absurd h List.not_mem_nil⟩ actions

/-- The changes that wait for a binding that is kept. -/
def waiting (s : Session) (id : BindingId) : List ChangeEvent :=
  ((s.binding? id).map fun b => b.waiting s.model).getD []

/-- In every state of a run in which the model is in use, let a list process what waits for it. In
the order of the feed, each addition is told on that list, as data that came in and as an
addition, and nowhere else. For each other change every binding that is kept is told once to read
again, in the order in which the bindings were made, and then the model's own listeners are. The
answer counts two notifications for each addition and one for any other change, and nothing is
left to be told again. A binding that was dropped is kept no longer; one that was destroyed and
not dropped is kept, and hears with the others. -/
theorem refreshes_reach_kept (config : Config) (actions : List SessionAction) (id : BindingId)
    (b : Binding) :
    let s := (start .empty config).run actions
    let t := s.act (.on id .process)
    s.model.destroyed = false → s.binding? id = some b → b.isList = true →
      t.model.emitted =
          s.model.emitted ++ (s.waiting id).flatMap (ChangeEvent.passedOn id s.kept) ∧
        (b.process s.model).1 = 2 * (s.waiting id).countP ChangeEvent.isAdded +
          (s.waiting id).countP ChangeEvent.isChanged +
          (s.waiting id).countP ChangeEvent.isRemoved ∧
        t.waiting id = [] ∧ s.kept.Pairwise (· < ·) := by
  intro s t halive hb hlist
  obtain ⟨horderly, hknown, hplural⟩ := known_run config actions
  obtain ⟨core, hcore⟩ := Binding.exists_core?_of_isList hlist
  have hmode : core.sync.mode ≠ .single := hplural _ (mem_of_binding? hb) hlist core hcore
  have hid : core.id = id :=
    (Binding.id_eq_of_core? hcore).symm.trans (horderly.labelled.id_eq hb)
  have hwaiting : s.waiting id = core.waiting s.model := by
    rw [waiting, hb]
    exact Binding.waiting_of_core? hcore s.model
  obtain ⟨hnumber, hmodel, hnext⟩ := Binding.process_of_isList hlist hcore s.model
  have hafter : t = s.put id (b.process s.model).2.1 (core.process s.model).2.2 := by
    rw [← hmodel]
    show s.act (.on id .process) = _
    simp only [act, hb, Binding.act]
  -- what a refresh is raised on are the members of the model, which are the bindings kept
  obtain ⟨hcount, hemitted⟩ := QueryCore.emitted_process_plural hmode s.model
  rw [hid, hknown.members halive] at hemitted
  refine ⟨?_, ?_, ?_, hknown.ascending⟩
  · rw [hafter, hwaiting]
    exact hemitted
  · rw [hnumber, hwaiting]
    exact hcount
  · rw [hafter, waiting, binding?_put_self hb]
    exact (Binding.waiting_of_core? hnext _).trans (core.waiting_process s.model)

/-- A list of documents, bindings to two documents and a list of elements. One of the
bindings to documents was dropped and the other one destroyed. Then a document came in, one
changed and one went out. -/
def fourBindings : List SessionAction :=
  [.write (.insert "C" (.object [("_id", .string "a"), ("items", .array [.string "x"])])),
    .write (.insert "C" (.object [("_id", .string "b")])),
    .bindList "/C" none [] [], .bindContext "/C(a)" none, .bindContext "/C(b)" none,
    .bindList "items" (some ⟨"/C(a)", 0⟩) [] [],
    .drop 1, .on 2 .destroy,
    .write (.insert "C" (.object [("_id", .string "c")])),
    .write (.update "C" (.plain "a") (.object [("n", .string "y")])),
    .write (.remove "C" (.plain "b"))]

/-- The list of documents is told of what came in, and all three are told of the rest. -/
theorem refreshes_reach_kept_fourBindings :
    let s := (start .empty .default).run fourBindings
    let refresh : List Emission := [.binding 0 (.change .refresh), .binding 2 (.change .refresh),
      .binding 3 (.change .refresh), .model .refresh]
    (s.act (.on 0 .process)).model.emitted = s.model.emitted ++
        ([.binding 0 .dataReceived, .binding 0 (.change .add)] ++ refresh ++ refresh) ∧
      ∃ b, s.binding? 0 = some b ∧ (b.process s.model).1 = 4 := by
  have hlist : (((start .empty .default).run fourBindings).binding? 0).any Binding.isList =
      true := by decide +kernel
  obtain ⟨b, hb, hkind⟩ := (Option.any_eq_true _ _).mp hlist
  obtain ⟨hraised, hcount, -, -⟩ :=
    refreshes_reach_kept .default fourBindings 0 b (by decide +kernel) hb hkind
  exact ⟨hraised.trans (by decide +kernel), b, hb, hcount.trans (by decide +kernel)⟩

end Session

end LiveDocuments
