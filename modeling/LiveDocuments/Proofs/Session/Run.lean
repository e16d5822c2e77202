import LiveDocuments.Session
import LiveDocuments.Proofs.Store.Shelves

/-!
# Runs of a session

A run is a list of actions on one model, on its bindings and on the documents behind them.
Live queries are opened and stopped through bindings only. An action that asks something
of a binding that is gone, or of one of another kind, does nothing.
-/

namespace LiveDocuments

/-- What may be asked of a binding. -/
inductive BindingAction where
  | process
  | refresh (force : Bool)
  | filter (filters : List Filter)
  | sort (sorters : List Sorter)
  | setContext (context : Option Context)
  | announce
  | checkUpdate (force : Bool)
  | currentValue
  | getContexts (start length : Option Nat)
  | destroy

namespace Binding

/-- The binding and the model after an action. -/
def act (m : Model) : BindingAction → Binding → Binding × Model
  | .process, b => (b.process m).2
  | .refresh force, b => b.refresh m force
  | .destroy, b => b.destroy m
  | .filter filters, list b =>
      let (b, m) := b.filter m filters
      (list b, m)
  | .sort sorters, list b =>
      let (b, m) := b.sort m sorters
      (list b, m)
  | .getContexts start length, list b =>
      let (_, b, m) := b.getContexts m start length
      (list b, m)
  | .setContext other, property b =>
      let (b, m) := b.setContext m other
      (property b, m)
  | .setContext other, context b =>
      let (b, m) := b.setContext m other
      (context b, m)
  | .announce, context b =>
      let (b, m) := b.announce m
      (context b, m)
  | .checkUpdate force, property b =>
      let (_, b, m) := b.checkUpdate m force
      (property b, m)
  | .currentValue, property b => (property b, (b.currentValue m).2)
  | _, b => (b, m)

end Binding

/-- What may happen in a session. -/
inductive SessionAction where
  | write (write : Write)
  | refuse (find observe : Option String)
  | getContext (path : String)
  | createContext (path : String) (context : Option Context)
  | read (path : String) (context : Option Context)
  | query (path : String) (context : Option Context) (sorters : List Sorter)
      (filters : List Filter)
  | refresh
  | destroy
  | bindProperty (path : String) (context : Option Context)
  | bindContext (path : String) (context : Option Context)
  | bindList (path : String) (parent : Option Context) (sorters : List Sorter)
      (filters : List Filter)
  | on (id : BindingId) (action : BindingAction)
  | drop (id : BindingId)

namespace Session

/-- The session with its model replaced. -/
def withModel (s : Session) (m : Model) : Session := { s with model := m }

/-- The session after an action. -/
def act (s : Session) : SessionAction → Session
  | .write write => s.withStore (s.store.step write.operation)
  | .refuse find observe => s.refuse find observe
  | .getContext path => s.withModel (s.model.getContext path).2
  | .createContext path context => s.withModel (s.model.createContext path context).2
  | .read path context => s.withModel (s.model.getProperty path context).2
  | .query path context sorters filters =>
      match s.model.runQuery path context sorters filters with
      | (.error _, m) => s.withModel m
      | (.ok cursor, m) => s.withModel (m.fetch cursor).2
  | .refresh => s.withModel s.model.refresh
  | .destroy => s.withModel s.model.destroy
  | .bindProperty path context => (s.bindProperty path context).2
  | .bindContext path context => (s.bindContext path context).2
  | .bindList path parent sorters filters => (s.bindList path parent sorters filters).2
  | .on id action =>
      match s.binding? id with
      | none => s
      | some b =>
          let (b, m) := b.act s.model action
          s.put id b m
  | .drop id => s.drop id

/-- The session after several actions. -/
def run (s : Session) (actions : List SessionAction) : Session := actions.foldl act s

@[simp] theorem run_nil (s : Session) : s.run [] = s := rfl

theorem run_cons (s : Session) (action : SessionAction) (rest : List SessionAction) :
    s.run (action :: rest) = (s.act action).run rest := rfl

theorem run_append (s : Session) (before after : List SessionAction) :
    s.run (before ++ after) = (s.run before).run after := List.foldl_append

theorem split_of_binding? {s : Session} {id : BindingId} {b : Binding}
    (h : s.binding? id = some b) (hdistinct : (s.bindings.map Prod.fst).Nodup) :
    ∃ before after, s.bindings = before ++ (id, b) :: after ∧
      (∀ entry ∈ before ++ after, entry.1 ≠ id) := by
  rcases Option.map_eq_some_iff.mp h with ⟨⟨number, found⟩, hfound, rfl⟩
  obtain rfl : number = id := by simpa using List.find?_some hfound
  obtain ⟨before, after, hsplit⟩ := List.append_of_mem (List.mem_of_find?_eq_some hfound)
  refine ⟨before, after, hsplit, fun entry hentry heq => ?_⟩
  rw [hsplit] at hdistinct
  have hnodup := (List.perm_middle.map Prod.fst).nodup_iff.mp hdistinct
  rw [List.map_cons, List.nodup_cons] at hnodup
  have hnumber : entry.1 ∈ (before ++ after).map Prod.fst := List.mem_map_of_mem hentry
  exact hnodup.1 (heq ▸ hnumber)

theorem put_of_split {s : Session} {before after : List (BindingId × Binding)}
    {id : BindingId} {b : Binding} (hsplit : s.bindings = before ++ (id, b) :: after)
    (hothers : ∀ entry ∈ before ++ after, entry.1 ≠ id) (other : Binding) (m : Model) :
    s.put id other m = ⟨m, before ++ (id, other) :: after⟩ := by
  have hkept : ∀ entries : List (BindingId × Binding), (∀ entry ∈ entries, entry.1 ≠ id) →
      entries.map (fun entry => if entry.1 = id then (id, other) else entry) = entries := by
    intro entries hentries
    refine (List.map_congr_left fun entry hentry => ?_).trans (List.map_id _)
    exact if_neg (hentries entry hentry)
  have hbefore := hkept before fun entry hentry =>
    hothers entry (List.mem_append_left after hentry)
  have hafter := hkept after fun entry hentry =>
    hothers entry (List.mem_append_right before hentry)
  rw [put, hsplit, List.map_append, List.map_cons, hbefore, hafter, if_pos rfl]

/-- A binding that is let go is gone, and the others stay where they are. -/
theorem drop_of_split {s : Session} {before after : List (BindingId × Binding)}
    {id : BindingId} {b : Binding} (hbinding : s.binding? id = some b)
    (hsplit : s.bindings = before ++ (id, b) :: after)
    (hothers : ∀ entry ∈ before ++ after, entry.1 ≠ id) :
    s.drop id = ⟨b.drop s.model, before ++ after⟩ := by
  have hkept : (before ++ after).filter (fun entry => entry.1 ≠ id) = before ++ after :=
    List.filter_eq_self.mpr fun entry hentry => decide_eq_true (hothers entry hentry)
  rw [List.filter_append] at hkept
  simp only [drop, hbinding, hsplit]
  rw [List.filter_append, List.filter_cons_of_neg (by simp), hkept]

end Session

end LiveDocuments
