import LiveDocuments.Proofs.Binding.Documents
import LiveDocuments.Proofs.Session.Limits

/-!
# Pages of a list of documents

A list is read page by page, and a page of no given length ends where the size limit of the
model is reached. Whether that cuts off anything is not a matter of the page: a list of
documents never has more contexts than the limit (`DocumentList.Limited`), and so the rest of
it always fits. Pages of one length, each behind the last, go through the whole list.
-/

namespace LiveDocuments

/-! ## Pages of contexts -/

section

variable (contexts : List Context) (sizeLimit : Nat)

/-- A page of no given length holds the rest of a list that is within the limit. -/
theorem page_none (h : contexts.length ≤ sizeLimit) (start : Option Nat) :
    page contexts start none sizeLimit = contexts.drop (start.getD 0) := by
  rw [page, Option.getD_none, List.take_of_length_le]
  rw [List.length_drop]
  exact Nat.sub_le_sub_right h _

/-- Pages of one length, each behind the last, are the beginning of the list. -/
theorem flatMap_page (length count : Nat) :
    ((List.range count).flatMap fun k =>
      page contexts (some (k * length)) (some length) sizeLimit) =
        contexts.take (count * length) := by
  induction count with
  | zero => rw [Nat.zero_mul, List.take_zero]; rfl
  | succ count ih =>
      rw [List.range_succ, List.flatMap_append, ih, List.flatMap_singleton, Nat.succ_mul,
        List.take_add]
      rfl

end

namespace DocumentList

/-- The first pages of one length, one behind the other. -/
def pages (b : DocumentList) (m : Model) (length count : Nat) : List Context :=
  (List.range count).flatMap fun k => b.getContexts m (some (k * length)) (some length)

/-- Paging loses and repeats nothing: a page of no given length is all of the rest, and pages
of one length are the beginning of the list, and all of it once there are enough of them. -/
structure IsPaged (b : DocumentList) (m : Model) : Prop where
  rest : ∀ start, b.getContexts m (some start) none = b.contexts.drop start
  beginning : ∀ length count, b.pages m length count = b.contexts.take (count * length)
  whole : ∀ length, 1 ≤ length → ∀ count, b.contexts.length ≤ count →
    b.pages m length count = b.contexts

variable {b : DocumentList} {m : Model} {view : DocumentList × Model}

theorem Limited.isPaged (h : b.Limited m) : b.IsPaged m where
  rest := fun start => page_none b.contexts m.config.sizeLimit h.size (some start)
  beginning := flatMap_page b.contexts m.config.sizeLimit
  whole := by
    intro length hlength count hcount
    refine (flatMap_page b.contexts m.config.sizeLimit length count).trans
      (List.take_of_length_le (hcount.trans ?_))
    exact Nat.le_mul_of_pos_right count hlength

/-! ## Lists on a store that others use -/

/-- The list is within the limit of a model that is in use. -/
structure InUse (view : DocumentList × Model) : Prop where
  limited : view.1.Limited view.2
  consistent : view.2.store.Consistent
  alive : view.2.destroyed = false

namespace InUse

theorem of_keeps (h : InUse view) {next : DocumentList × Model}
    (hlimited : next.1.Limited next.2) (hkeeps : view.2.Keeps next.2) : InUse next :=
  ⟨hlimited, hkeeps.consistent h.consistent, hkeeps.destroyed.trans h.alive⟩

theorem requery (h : InUse view) {b : DocumentList} (hb : b.Limited view.2) :
    InUse (b.requery view.2) :=
  h.of_keeps (hb.requery h.consistent) (keeps_requery b view.2)

/-- Whatever is done to the list or to its store, it stays within the limit. -/
theorem act (h : InUse view) {action : ListAction} (hundisturbed : ¬ view.1.Disturbs action) :
    InUse (DocumentList.act view action) := by
  obtain ⟨b, m⟩ := view
  have hended : m.destroyed = true → m.store.live = [] := fun hdestroyed => by
    rw [show m.destroyed = false from h.alive] at hdestroyed
    cases hdestroyed
  cases action with
  | store operation =>
      refine ⟨h.limited.operate h.consistent fun subscription hsubscription => ?_,
        h.consistent.step operation, h.alive⟩
      exact not_or.mp fun hor => hundisturbed ⟨subscription, hsubscription, hor⟩
  | filter filters =>
      exact h.requery (b := { b with filters := filters })
        ⟨h.limited.mode, h.limited.size, h.limited.tracks⟩
  | sort sorters =>
      exact h.requery (b := { b with sorters := sorters })
        ⟨h.limited.mode, h.limited.size, h.limited.tracks⟩
  | refresh force =>
      cases force with
      | true => exact h.requery h.limited
      | false =>
          obtain ⟨next, hnext, hlimited⟩ := h.limited.act h.consistent hended (.refresh false)
          obtain rfl : b = next := by cases hnext; rfl
          exact h.of_keeps hlimited (.of_onlyRaises (.emit m _))
  | process =>
      exact h.of_keeps (h.limited.process h.consistent hended) (QueryCore.keeps_process b.core m)

theorem actAll (h : InUse view) {actions : List ListAction}
    (hundisturbed : Undisturbed view actions) : InUse (DocumentList.actAll view actions) := by
  induction actions generalizing view with
  | nil => exact h
  | cons action rest ih => exact ih (h.act hundisturbed.1) hundisturbed.2

end InUse

/-- In every state of a session, and likewise however a list is used over a store that others read
and write too, as long as nobody else takes the changes off its feed: a page of no given length
from a start on holds all contexts from there on, and pages of one length, each behind the last,
hold all contexts in their order. -/
theorem pages_lose_nothing :
    (∀ config actions id b,
      (id, .list (.documents b)) ∈ ((Session.start .empty config).run actions).bindings →
      b.IsPaged ((Session.start .empty config).run actions).model) ∧
    ∀ (m n : Model) path sorters filters b actions, m.store.Reachable → m.destroyed = false →
      create m path sorters filters = (.ok b, n) → Undisturbed (b, n) actions →
      (DocumentList.actAll (b, n) actions).1.IsPaged (DocumentList.actAll (b, n) actions).2 := by
  constructor
  · intro config actions id b hb
    exact ((Session.limited_run config actions).lists _ hb b rfl).isPaged
  · intro m n path sorters filters b actions hstore halive hcreate hundisturbed
    have hlimited := limited_create hstore.consistent (congrArg Prod.fst hcreate)
    rw [hcreate] at hlimited
    have hkeeps := keeps_create hcreate
    have hmade : InUse (b, n) :=
      ⟨hlimited, hkeeps.consistent hstore.consistent, hkeeps.destroyed.trans halive⟩
    exact (hmade.actAll hundisturbed).limited.isPaged

/-- Three documents under a limit of two, the first of which gives way to the third. -/
def shifted : List SessionAction :=
  [.write (.insert "A" (Store.bare "a")), .write (.insert "A" (Store.bare "b")),
    .write (.insert "A" (Store.bare "c")), .bindList "/A" none [] [],
    .write (.remove "A" (.plain "a")), .on 0 .process]

/-- The list of documents that a binding is. -/
def ofBinding? : Binding → Option DocumentList
  | .list (.documents b) => some b
  | _ => none

theorem eq_of_ofBinding? {found : Binding} {b : DocumentList} (h : ofBinding? found = some b) :
    found = .list (.documents b) := by
  unfold ofBinding? at h
  split at h
  · rw [Option.some.inj h]
  · cases h

theorem pages_lose_nothing_shifted :
    (let s := (Session.start .empty ⟨2, false⟩).run shifted
      ∃ b, (0, .list (.documents b)) ∈ s.bindings ∧
        b.contexts.map Context.path = ["/A(b)", "/A(c)"] ∧
        b.getContexts s.model (some 1) none = b.contexts.drop 1 ∧
        b.pages s.model 1 2 = b.contexts) ∧
      stocked.store.Reachable ∧ stocked.destroyed = false ∧
      ∃ b n, create stocked "/A" [] [] = (.ok b, n) ∧ Undisturbed (b, n) takeover ∧
        (actAll (b, n) takeover).1.pages (actAll (b, n) takeover).2 1 2 =
          (actAll (b, n) takeover).1.contexts.take 2 := by
  obtain ⟨hsession, hshared⟩ := pages_lose_nothing
  constructor
  · intro s
    have hshown : ((s.binding? 0).bind ofBinding?).map (fun b => b.contexts.map Context.path) =
        some ["/A(b)", "/A(c)"] := by decide +kernel
    obtain ⟨b, hb, hpaths⟩ := Option.map_eq_some_iff.mp hshown
    obtain ⟨found, hfound, hlist⟩ := Option.bind_eq_some_iff.mp hb
    rw [eq_of_ofBinding? hlist] at hfound
    have hmem := Session.mem_of_binding? hfound
    have hpaged := hsession ⟨2, false⟩ shifted 0 b hmem
    have hlength : b.contexts.length ≤ 2 := by
      rw [← List.length_map Context.path, hpaths]
      decide
    exact ⟨b, hmem, hpaths, hpaged.rest 1, hpaged.whole 1 (by decide) 2 hlength⟩
  · refine ⟨⟨Store.stocking, rfl⟩, rfl, ?_⟩
    have hmade : (create stocked "/A" [] []).1.toOption.isSome = true := by decide +kernel
    cases hcreate : create stocked "/A" [] [] with
    | mk result n =>
        rw [hcreate] at hmade
        cases result with
        | error e => cases hmade
        | ok b =>
            have hundisturbed : Undisturbed (b, n) takeover := by
              simp [takeover, Undisturbed, Disturbs, StoreOperation.Ends, StoreOperation.Polls]
            exact ⟨b, n, rfl, hundisturbed,
              (hshared stocked n "/A" [] [] b takeover ⟨Store.stocking, rfl⟩ rfl hcreate
                hundisturbed).beginning 1 2⟩

end DocumentList

end LiveDocuments
