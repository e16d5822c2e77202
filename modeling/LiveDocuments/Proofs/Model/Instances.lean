import LiveDocuments.Proofs.Model.Asking
import Mathlib.Data.List.Dedup
import Mathlib.Data.List.Nodup

/-!
# One instance for each path

A cache numbers the contexts it makes, and makes one only for a path that it holds none for
(`ContextCache.IsInterned`). So two contexts that it holds are one instance exactly if they
have the same path, and how many it holds is told by the paths it was asked for.

What an operation does to the contexts of a model is told by the paths it asks for, in order,
and by the contexts that somebody has in hand before it and after it (`Model.Supplies`).
Reading a value asks for the documents that lookups lead to on the way (`Model.followed`),
and for nothing else.
-/

namespace LiveDocuments

namespace ContextCache

variable {cache : ContextCache} {c d : Context}

/-- The paths of the contexts held. -/
def paths (cache : ContextCache) : List String := cache.entries.map Context.path

/-! ## Asking for contexts -/

theorem getOrCreate_mem (cache : ContextCache) (path : String) :
    (cache.getOrCreate path).1 ∈ (cache.getOrCreate path).2.entries :=
  List.mem_of_find?_eq_some (cache.get?_getOrCreate_self path)

theorem keeps_entries (cache : ContextCache) (path : String) :
    cache.entries <+: (cache.getOrCreate path).2.entries := by
  unfold getOrCreate
  split
  · exact List.prefix_rfl
  · exact List.prefix_append _ _

theorem mem_paths_getOrCreate {path other : String} :
    other ∈ (cache.getOrCreate path).2.paths ↔ other = path ∨ other ∈ cache.paths := by
  constructor
  · intro h
    obtain ⟨context, hcontext, rfl⟩ := List.mem_map.mp h
    exact (mem_getOrCreate hcontext).symm.imp_right List.mem_map_of_mem
  · rintro (rfl | h)
    · exact List.mem_map.mpr ⟨_, cache.getOrCreate_mem other, cache.path_getOrCreate other⟩
    · exact ((cache.keeps_entries path).map Context.path).subset h

@[simp] theorem getOrCreateAll_nil (cache : ContextCache) :
    cache.getOrCreateAll [] = ([], cache) := rfl

theorem getOrCreateAll_cons (cache : ContextCache) (path : String) (rest : List String) :
    cache.getOrCreateAll (path :: rest) =
      ((cache.getOrCreate path).1 :: ((cache.getOrCreate path).2.getOrCreateAll rest).1,
        ((cache.getOrCreate path).2.getOrCreateAll rest).2) := rfl

theorem getOrCreateAll_append (cache : ContextCache) (before after : List String) :
    (cache.getOrCreateAll (before ++ after)).2 =
      ((cache.getOrCreateAll before).2.getOrCreateAll after).2 := by
  induction before generalizing cache with
  | nil => rfl
  | cons path rest ih => exact ih _

theorem keeps_entries_all (cache : ContextCache) (requested : List String) :
    cache.entries <+: (cache.getOrCreateAll requested).2.entries := by
  induction requested generalizing cache with
  | nil => exact List.prefix_rfl
  | cons path rest ih => exact (cache.keeps_entries path).trans (ih _)

theorem getOrCreateAll_subset (cache : ContextCache) (requested : List String) :
    (cache.getOrCreateAll requested).1 ⊆ (cache.getOrCreateAll requested).2.entries := by
  induction requested generalizing cache with
  | nil => exact List.nil_subset _
  | cons path rest ih =>
      refine List.cons_subset.mpr ⟨?_, ih _⟩
      exact (keeps_entries_all _ rest).subset (cache.getOrCreate_mem path)

theorem mem_paths_getOrCreateAll {requested : List String} {other : String} :
    other ∈ (cache.getOrCreateAll requested).2.paths ↔
      other ∈ requested ∨ other ∈ cache.paths := by
  induction requested generalizing cache with
  | nil => simp
  | cons path rest ih =>
      rw [getOrCreateAll_cons, ih, mem_paths_getOrCreate, List.mem_cons, or_left_comm, or_assoc]

/-! ## Instances -/

/-- Each path has one instance, and each instance a number of its own, below the next. -/
structure IsInterned (cache : ContextCache) : Prop where
  paths : cache.paths.Nodup
  serials : (cache.entries.map Context.serial).Nodup
  numbered : ∀ c ∈ cache.entries, c.serial < cache.nextSerial

namespace IsInterned

theorem empty : empty.IsInterned :=
  ⟨List.nodup_nil, List.nodup_nil, fun _ h => absurd h List.not_mem_nil⟩

theorem getOrCreate (h : cache.IsInterned) (path : String) :
    (cache.getOrCreate path).2.IsInterned where
  paths := nodup_getOrCreate h.paths path
  serials := by
    unfold ContextCache.getOrCreate
    split
    · exact h.serials
    · rw [List.map_append]
      refine List.nodup_append.mpr ⟨h.serials, List.nodup_singleton _, ?_⟩
      intro serial hserial other hother
      obtain ⟨c, hc, rfl⟩ := List.mem_map.mp hserial
      obtain rfl := List.mem_singleton.mp hother
      exact Nat.ne_of_lt (h.numbered c hc)
  numbered := by
    unfold ContextCache.getOrCreate
    split
    · exact h.numbered
    · intro c hc
      rcases List.mem_append.mp hc with hold | hnew
      · exact Nat.lt_succ_of_lt (h.numbered c hold)
      · obtain rfl := List.mem_singleton.mp hnew
        exact Nat.lt_succ_self _

theorem getOrCreateAll (h : cache.IsInterned) (requested : List String) :
    (cache.getOrCreateAll requested).2.IsInterned := by
  induction requested generalizing cache with
  | nil => exact h
  | cons path rest ih => exact ih (h.getOrCreate path)

/-- Contexts that are held are one instance if they have one path, and only then. -/
theorem isSame_iff (h : cache.IsInterned) (hc : c ∈ cache.entries) (hd : d ∈ cache.entries) :
    c.isSame d = true ↔ c.path = d.path := by
  rw [Context.isSame, beq_iff_eq]
  constructor
  · exact fun hserial => congrArg _ (List.inj_on_of_nodup_map h.serials hc hd hserial)
  · exact fun hpath => congrArg _ (List.inj_on_of_nodup_map h.paths hc hd hpath)

end IsInterned

theorem size_getOrCreateAll_empty (requested : List String) :
    (empty.getOrCreateAll requested).2.size = requested.dedup.length := by
  have hinterned := IsInterned.empty.getOrCreateAll requested
  have hperm : (empty.getOrCreateAll requested).2.paths.Perm requested.dedup := by
    refine (List.perm_ext_iff_of_nodup hinterned.paths requested.nodup_dedup).mpr fun path => ?_
    rw [mem_paths_getOrCreateAll, List.mem_dedup]
    exact or_iff_left List.not_mem_nil
  rw [← hperm.length_eq, paths, List.length_map, size]

/-! ## Instances made later -/

/-- All instances that are held, and all that will be, have numbers from `n` on. -/
structure IsFrom (cache : ContextCache) (n : Nat) : Prop where
  next : n ≤ cache.nextSerial
  held : ∀ c ∈ cache.entries, n ≤ c.serial

namespace IsFrom

variable {n : Nat}

theorem getOrCreate (h : cache.IsFrom n) (path : String) :
    (cache.getOrCreate path).2.IsFrom n := by
  unfold ContextCache.getOrCreate
  split
  · exact h
  · refine ⟨Nat.le_succ_of_le h.next, fun c hc => ?_⟩
    rcases List.mem_append.mp hc with hold | hnew
    · exact h.held c hold
    · obtain rfl := List.mem_singleton.mp hnew
      exact h.next

theorem getOrCreateAll (h : cache.IsFrom n) (requested : List String) :
    (cache.getOrCreateAll requested).2.IsFrom n := by
  induction requested generalizing cache with
  | nil => exact h
  | cons path rest ih => exact ih (h.getOrCreate path)

theorem clear (h : n ≤ cache.nextSerial) : cache.clear.IsFrom n :=
  ⟨h, fun _ hc => absurd hc List.not_mem_nil⟩

/-- What was numbered before is none of the instances that are handed out. -/
theorem not_isSame (h : cache.IsFrom n) (hc : c.serial < n) (path : String) :
    c.isSame (cache.getOrCreate path).1 = false := by
  have hle := (h.getOrCreate path).held _ (cache.getOrCreate_mem path)
  exact beq_eq_false_iff_ne.mpr (Nat.ne_of_lt (Nat.lt_of_lt_of_le hc hle))

end IsFrom

end ContextCache

/-! ## What operations of a model ask for -/

namespace Model

/-- The second model has the contexts that are there after some paths were asked for. -/
def Draws (requested : List String) (m n : Model) : Prop :=
  n.contexts = (m.contexts.getOrCreateAll requested).2

/-- Between the models some paths were asked for, and whoever had contexts of the first model
in hand before has contexts of the second in hand after. -/
structure Supplies (requested : List String) (before after : List Context) (m n : Model) :
    Prop where
  draws : Draws requested m n
  cached : before ⊆ m.contexts.entries → after ⊆ n.contexts.entries

variable {m n k : Model} {first second : List String} {before between after : List Context}

theorem Draws.trans (hmn : Draws first m n) (hnk : Draws second n k) :
    Draws (first ++ second) m k := by
  unfold Draws
  rw [ContextCache.getOrCreateAll_append, ← show n.contexts = _ from hmn]
  exact hnk

theorem Draws.keeps_entries (h : Draws first m n) :
    m.contexts.entries <+: n.contexts.entries := by
  rw [show n.contexts = _ from h]
  exact m.contexts.keeps_entries_all first

theorem Draws.supplies (h : Draws first m n) (held : List Context) :
    Supplies first held held m n :=
  ⟨h, fun hheld => List.Subset.trans hheld h.keeps_entries.subset⟩

namespace Supplies

theorem trans (hmn : Supplies first before between m n)
    (hnk : Supplies second between after n k) :
    Supplies (first ++ second) before after m k :=
  ⟨hmn.draws.trans hnk.draws, hnk.cached ∘ hmn.cached⟩

theorem of_eq (hcontexts : n.contexts = m.contexts) (hafter : after ⊆ before) :
    Supplies [] before after m n :=
  ⟨hcontexts, fun hbefore => hcontexts ▸ List.Subset.trans hafter hbefore⟩

theorem weaken (h : Supplies first between after m n) {fewer : List Context}
    (hbetween : between ⊆ before) (hfewer : fewer ⊆ after) : Supplies first before fewer m n :=
  ⟨h.draws, fun hbefore =>
    List.Subset.trans hfewer (h.cached (List.Subset.trans hbetween hbefore))⟩

theorem rest (h : Supplies first before between m n) (hcontexts : k.contexts = n.contexts)
    (hafter : after ⊆ between) : Supplies first before after m k := by
  have htrans := h.trans (of_eq hcontexts hafter)
  rwa [List.append_nil] at htrans

theorem start (hcontexts : n.contexts = m.contexts) (hbetween : between ⊆ before)
    (h : Supplies first between after n k) : Supplies first before after m k :=
  (of_eq hcontexts hbetween).trans h

theorem frame (h : Supplies first before after m n) (others : List Context) :
    Supplies first (others ++ before) (others ++ after) m n := by
  refine ⟨h.draws, fun hheld => ?_⟩
  obtain ⟨hothers, hbefore⟩ := List.append_subset.mp hheld
  exact List.append_subset.mpr ⟨(h.draws.supplies others).cached hothers, h.cached hbefore⟩

theorem contextFor (m : Model) (path : String) :
    Supplies [path] [] [(m.contextFor path).1] m (m.contextFor path).2 :=
  ⟨rfl, fun _ => List.cons_subset.mpr ⟨m.contexts.getOrCreate_mem path, List.nil_subset _⟩⟩

theorem getOrCreateAll (m : Model) (requested : List String) :
    Supplies requested [] (m.contexts.getOrCreateAll requested).1 m
      { m with contexts := (m.contexts.getOrCreateAll requested).2 } :=
  ⟨rfl, fun _ => m.contexts.getOrCreateAll_subset requested⟩

end Supplies

theorem OnlyRaises.contexts_eq (h : m.OnlyRaises n) : n.contexts = m.contexts := by
  obtain ⟨_, rfl⟩ := h
  rfl

theorem OnlyRaises.store_eq (h : m.OnlyRaises n) : n.store = m.store := by
  obtain ⟨_, rfl⟩ := h
  rfl

theorem contexts_components (m : Model) (path : String) (context : Option Context) :
    (m.components path context).2.contexts = m.contexts := by
  unfold components
  split <;> rfl

theorem contexts_runQuery (m : Model) (path : String) (context : Option Context)
    (sorters : List Sorter) (filters : List Filter) :
    (m.runQuery path context sorters filters).2.contexts = m.contexts := by
  have hcomponents := m.contexts_components path context
  unfold runQuery
  split
  · next heq =>
      rw [heq] at hcomponents
      exact hcomponents
  · next c n heq =>
      rw [heq] at hcomponents
      exact (OnlyRaises.query n c sorters filters none).contexts_eq.trans hcomponents

theorem contexts_readDocument (m : Model) (c : Components) :
    (m.readDocument c).2.contexts = m.contexts := by
  have hquery := (OnlyRaises.query m c [] [] none).contexts_eq
  unfold readDocument
  split
  · rfl
  split
  · next heq =>
      rw [heq] at hquery
      exact hquery
  · next cursor n heq =>
      rw [heq] at hquery
      have hfirst : (n.first cursor).2.contexts = m.contexts := hquery
      split <;> next hfound =>
        rw [hfound] at hfirst
        exact hfirst

/-! ## Reading -/

/-- The contexts were asked for by their paths, one after the other. -/
def Yields (obtained : List Context) (m n : Model) : Prop :=
  Supplies (obtained.map Context.path) [] obtained m n

theorem Yields.refl (m : Model) : Yields [] m m := .of_eq rfl (List.Subset.refl _)

theorem Yields.trans {obtained others : List Context} (hmn : Yields obtained m n)
    (hnk : Yields others n k) : Yields (obtained ++ others) m k := by
  have hnk' := Supplies.frame hnk obtained
  rw [List.append_nil] at hnk'
  rw [Yields, List.map_append]
  exact Supplies.trans hmn hnk'

theorem Yields.start {obtained : List Context} (hcontexts : n.contexts = m.contexts)
    (h : Yields obtained n k) : Yields obtained m k :=
  Supplies.start hcontexts (List.Subset.refl _) h

/-- The context that a leg of reading asks for: that of the document it leads to. -/
def ReadStep.followed : ReadStep → List Context
  | finished _ => []
  | follow _ context => [context]

theorem yields_lookup (m : Model) (document : Json) (path : String) :
    Yields (m.lookup document path).1.followed m (m.lookup document path).2 := by
  have hfollow : ∀ (place property : String), Yields
      (ReadStep.follow property (m.contextFor place).1).followed m (m.contextFor place).2 := by
    intro place property
    have hpath : (m.contextFor place).1.path = place := m.contexts.path_getOrCreate place
    rw [ReadStep.followed, Yields, List.map_singleton, hpath]
    exact .contextFor m place
  unfold lookup
  split
  · exact .refl m
  split
  · exact .refl m
  split
  · exact .refl m
  · exact hfollow _ _

theorem yields_readProperty (m : Model) (document : Json) (c : Components) :
    Yields (m.readProperty document c).1.followed m (m.readProperty document c).2 := by
  unfold readProperty
  split
  · exact .refl m
  split
  · exact m.yields_lookup document c.property
  · exact .refl m

theorem yields_readFromOwner (m : Model) (path : String) (context : Context) :
    Yields (m.readFromOwner path context).1.followed m (m.readFromOwner path context).2 := by
  unfold readFromOwner
  split
  · exact .refl m
  next owner _ =>
    have hread := m.contexts_readDocument owner
    split
    · next document n heq =>
        rw [heq] at hread
        exact (n.yields_lookup document path).start hread
    · next heq =>
        rw [heq] at hread
        exact .of_eq hread (List.Subset.refl _)

theorem yields_readStep (m : Model) (path : String) (context : Option Context) :
    Yields (m.readStep path context).1.followed m (m.readStep path context).2 := by
  unfold readStep
  split
  · split
    · exact .refl m
    · exact m.yields_readFromOwner path _
  split
  · exact .refl m
  split
  · exact .refl m
  next c _ =>
    have hread := m.contexts_readDocument c
    split
    · next document n heq =>
        rw [heq] at hread
        exact (n.yields_readProperty document c).start hread
    · next heq =>
        rw [heq] at hread
        exact .of_eq hread (List.Subset.refl _)

/-- The contexts of the documents that reading is led to in so many legs. -/
def followedWithin : Nat → Model → String → Option Context → List Context
  | 0, _, _, _ => []
  | legs + 1, m, path, context =>
      match m.readStep path context with
      | (.finished _, _) => []
      | (.follow path context, m) => context :: followedWithin legs m path (some context)

/-- The contexts of the documents that reading is led to by lookups, if it comes to an
end. -/
def followed (m : Model) (path : String) (context : Option Context) : List Context :=
  match m.read? path context with
  | some r => followedWithin r.legs m path context
  | none => []

theorem yields_read? {m : Model} {path : String} {context : Option Context} {r : Reading}
    (h : m.read? path context = some r) :
    Yields (followedWithin r.legs m path context) m r.model := by
  refine read?.partial_correctness
    (motive := fun m path context r => Yields (followedWithin r.legs m path context) m r.model)
    ?_ m path context r h
  intro read hread m path context r hr
  have hleg := m.yields_readStep path context
  split at hr
  · next heq =>
      rw [heq] at hleg
      obtain rfl := Option.some.inj hr
      simp only [followedWithin, heq]
      exact hleg
  · next heq =>
      rw [heq] at hleg
      obtain ⟨s, hs, hlast⟩ := Option.bind_eq_some_iff.mp hr
      obtain rfl := Option.some.inj hlast
      simp only [followedWithin, heq]
      exact hleg.trans (hread _ _ _ s hs)

theorem yields_getProperty (m : Model) (path : String) (context : Option Context) :
    Yields (m.followed path context) m (m.getProperty path context).2 := by
  cases h : m.read? path context with
  | some r =>
      simp only [getProperty, followed, h]
      exact yields_read? h
  | none =>
      simp only [getProperty, followed, h]
      exact .refl m

end Model

end LiveDocuments
