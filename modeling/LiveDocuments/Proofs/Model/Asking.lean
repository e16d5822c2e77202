import LiveDocuments.Binding.Basic
import LiveDocuments.Proofs.Model.Basic

/-!
# What asking leaves alone

To answer a question a model may look at documents, hand out contexts and raise events, but
it opens no live query, stops none and makes no binding. `Model.OnlyAsks` says so of two
models. It holds along every reading, however many documents the path leads through.
-/

namespace LiveDocuments

namespace Model

/-- The second model differs from the first in the contexts it keeps, in what has been
raised and in how often the store was asked, if at all. -/
def OnlyAsks (m n : Model) : Prop :=
  ∃ contexts emitted asked, n = { m with
    contexts := contexts
    emitted := emitted
    backend := { m.backend with asked := asked } }

namespace OnlyAsks

theorem refl (m : Model) : OnlyAsks m m := ⟨m.contexts, m.emitted, m.backend.asked, rfl⟩

theorem trans {m n k : Model} (hmn : OnlyAsks m n) (hnk : OnlyAsks n k) : OnlyAsks m k := by
  rcases hmn with ⟨_, _, _, rfl⟩
  rcases hnk with ⟨contexts, emitted, asked, rfl⟩
  exact ⟨contexts, emitted, asked, rfl⟩

theorem of_onlyRaises {m n : Model} (h : OnlyRaises m n) : OnlyAsks m n := by
  rcases h with ⟨emitted, rfl⟩
  exact ⟨m.contexts, emitted, m.backend.asked, rfl⟩

theorem keeps {m n : Model} (h : OnlyAsks m n) : Keeps m n := by
  rcases h with ⟨_, _, _, rfl⟩
  exact ⟨rfl, id, rfl, rfl, rfl, rfl⟩

theorem emitOn (m : Model) (id : BindingId) (event : BindingEvent) :
    OnlyAsks m (m.emitOn id event) := of_onlyRaises (.emit m _)

/-! ## Contexts and components -/

theorem contexts (m : Model) (cache : ContextCache) :
    OnlyAsks m { m with contexts := cache } := ⟨cache, m.emitted, m.backend.asked, rfl⟩

theorem contextFor (m : Model) (path : String) : OnlyAsks m (m.contextFor path).2 :=
  contexts m _

theorem createContext (m : Model) (path : String) (context : Option Context) :
    OnlyAsks m (m.createContext path context).2 := contextFor m _

theorem getContext (m : Model) (path : String) : OnlyAsks m (m.getContext path).2 := by
  unfold Model.getContext
  split
  · exact contextFor m path
  · exact refl m

theorem components (m : Model) (path : String) (context : Option Context) :
    OnlyAsks m (m.components path context).2 := by
  unfold Model.components
  split
  · exact refl m
  · exact of_onlyRaises (.report m _ none)

/-! ## Documents -/

theorem fetch (m : Model) (cursor : Cursor) : OnlyAsks m (m.fetch cursor).2 :=
  ⟨m.contexts, m.emitted, m.backend.asked + 1, rfl⟩

theorem first (m : Model) (cursor : Cursor) : OnlyAsks m (m.first cursor).2 := fetch m cursor

theorem runQuery (m : Model) (path : String) (context : Option Context)
    (sorters : List Sorter) (filters : List Filter) :
    OnlyAsks m (m.runQuery path context sorters filters).2 := by
  have hcomponents := components m path context
  unfold Model.runQuery
  split
  · next heq =>
      rw [heq] at hcomponents
      exact hcomponents
  · next c n heq =>
      rw [heq] at hcomponents
      exact hcomponents.trans (of_onlyRaises (.query n c sorters filters none))

theorem readDocument (m : Model) (c : Components) : OnlyAsks m (m.readDocument c).2 := by
  have hquery := of_onlyRaises (OnlyRaises.query m c [] [] none)
  unfold Model.readDocument
  split
  · exact refl m
  split
  · next heq =>
      rw [heq] at hquery
      exact hquery
  · next cursor n heq =>
      rw [heq] at hquery
      have hfirst := hquery.trans (first n cursor)
      split <;> next hfound =>
        rw [hfound] at hfirst
        exact hfirst

theorem lookup (m : Model) (document : Json) (path : String) :
    OnlyAsks m (m.lookup document path).2 := by
  unfold Model.lookup
  split
  · exact refl m
  split
  · exact refl m
  split
  · exact refl m
  · exact contextFor m _

theorem readProperty (m : Model) (document : Json) (c : Components) :
    OnlyAsks m (m.readProperty document c).2 := by
  unfold Model.readProperty
  split
  · exact refl m
  split
  · exact lookup m document c.property
  · exact refl m

theorem readFromOwner (m : Model) (path : String) (context : Context) :
    OnlyAsks m (m.readFromOwner path context).2 := by
  unfold Model.readFromOwner
  split
  · exact refl m
  next owner _ =>
    have hread := readDocument m owner
    split
    · next document n heq =>
        rw [heq] at hread
        exact hread.trans (lookup n document path)
    · next heq =>
        rw [heq] at hread
        exact hread

theorem readStep (m : Model) (path : String) (context : Option Context) :
    OnlyAsks m (m.readStep path context).2 := by
  unfold Model.readStep
  split
  · split
    · exact refl m
    · exact readFromOwner m path _
  split
  · exact refl m
  split
  · exact refl m
  next c _ =>
    have hread := readDocument m c
    split
    · next document n heq =>
        rw [heq] at hread
        exact hread.trans (readProperty n document c)
    · next heq =>
        rw [heq] at hread
        exact hread

theorem of_read? {m : Model} {path : String} {context : Option Context} {r : Reading}
    (h : m.read? path context = some r) : OnlyAsks m r.model := by
  refine read?.partial_correctness (motive := fun m _ _ r => OnlyAsks m r.model) ?_
    m path context r h
  intro read hread m path context r hr
  have hleg := readStep m path context
  split at hr
  · next heq =>
      rw [heq] at hleg
      obtain rfl := Option.some.inj hr
      exact hleg
  · next heq =>
      rw [heq] at hleg
      obtain ⟨s, hs, hlast⟩ := Option.bind_eq_some_iff.mp hr
      obtain rfl := Option.some.inj hlast
      exact hleg.trans (hread _ _ _ s hs)

theorem getProperty (m : Model) (path : String) (context : Option Context) :
    OnlyAsks m (m.getProperty path context).2 := by
  unfold Model.getProperty
  split
  · next h => exact of_read? h
  · exact refl m

end OnlyAsks

end Model

/-! ## Bindings that ask -/

open Model

namespace PropertyBinding

theorem onlyAsks_readAt (m : Model) (path : String) (context : Option Context) :
    m.OnlyAsks (readAt m path context).2 := by
  have hread := OnlyAsks.getProperty m path context
  unfold readAt
  split <;> next heq =>
    rw [heq] at hread
    exact hread

theorem onlyAsks_checkPath (m : Model) (path : String) (context : Option Context) :
    m.OnlyAsks (checkPath m path context).2 := by
  have hcomponents := OnlyAsks.components m path context
  unfold checkPath
  split
  · exact .refl m
  split <;> next heq =>
    rw [heq] at hcomponents
    exact hcomponents

theorem onlyAsks_checkUpdate (b : PropertyBinding) (m : Model) (force : Bool) :
    m.OnlyAsks (b.checkUpdate m force).2.2 := by
  have hread : m.OnlyAsks (b.currentValue m).2 := onlyAsks_readAt m b.path b.context
  unfold checkUpdate
  split
  · exact .refl m
  dsimp only
  split
  · exact hread
  · exact hread.trans (.emitOn _ _ _)

theorem onlyAsks_setContext (b : PropertyBinding) (m : Model) (context : Option Context) :
    m.OnlyAsks (b.setContext m context).2 := by
  unfold setContext
  split
  · exact .refl m
  · exact onlyAsks_checkUpdate { b with context := context } m false

end PropertyBinding

namespace ContextBinding

theorem onlyAsks_renewElement (b : ContextBinding) (m : Model) (force : Bool) :
    m.OnlyAsks (b.renewElement m force).2 := by
  have hcreate := OnlyAsks.createContext m b.path b.context
  simp only [renewElement]
  split
  · exact hcreate.trans (.emitOn _ _ _)
  · exact hcreate

end ContextBinding

namespace ElementList

theorem onlyAsks_contextsOf (b : ElementList) (m : Model) (value : Option Json) :
    m.OnlyAsks (b.contextsOf m value).2 := by
  unfold contextsOf
  split
  · exact .contexts m _
  · exact .emitOn m _ _

theorem onlyAsks_materialize (b : ElementList) (m : Model) :
    m.OnlyAsks (b.materialize m).2 := by
  unfold materialize
  split
  · exact .refl m
  next cursor _ =>
    have hfirst := OnlyAsks.first m cursor
    split
    · next e n heq =>
        rw [heq] at hfirst
        exact hfirst.trans (.emitOn n b.core.id _)
    · next heq =>
        rw [heq] at hfirst
        exact hfirst
    · next document n heq =>
        rw [heq] at hfirst
        exact hfirst.trans (onlyAsks_contextsOf b n _)

end ElementList

end LiveDocuments
