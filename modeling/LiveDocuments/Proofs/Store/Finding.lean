import LiveDocuments.Proofs.Query.Order
import LiveDocuments.Proofs.Store.Shelves

/-!
# What a query finds

A query finds the first of the matching documents, sorted without disturbing those that the
order does not tell apart. What stands before what in a sorted list is known of every two
of its members (`isLE_of_sorted`, `pair_sublist_of_sorted`), and whatever is found can be
compared in this way with what was found later and with what was left out
(`Store.find_is_top`). The order in which a collection keeps its documents is that of their
arrivals (`Store.idsOf_run`).
-/

namespace LiveDocuments

/-! ## Sorted lists -/

section Sorting

variable {α : Type} {l : List α} {a b : α}

theorem pair_sublist_or_pair_sublist (ha : a ∈ l) (hb : b ∈ l) (hne : a ≠ b) :
    [a, b].Sublist l ∨ [b, a].Sublist l := by
  induction l with
  | nil => exact absurd ha List.not_mem_nil
  | cons first rest ih =>
      rcases List.mem_cons.mp ha with rfl | harest <;> rcases List.mem_cons.mp hb with rfl | hbrest
      · exact absurd rfl hne
      · exact .inl ((List.singleton_sublist.mpr hbrest).cons_cons a)
      · exact .inr ((List.singleton_sublist.mpr harest).cons_cons b)
      · exact (ih harest hbrest).imp (·.cons first) (·.cons first)

/-- Where nothing occurs twice, what stands before does not stand behind as well. -/
theorem not_pair_sublist_of_pair_sublist (hl : l.Nodup) (h : [a, b].Sublist l) :
    ¬ [b, a].Sublist l := by
  induction l with
  | nil => exact absurd h (by simp)
  | cons first rest ih =>
      obtain ⟨hfirst, hrest⟩ := List.nodup_cons.mp hl
      intro hback
      rcases List.sublist_cons_iff.mp h with hin | ⟨_, heq, hin⟩ <;>
        rcases List.sublist_cons_iff.mp hback with hbackin | ⟨_, hbackeq, -⟩
      · exact ih hrest hin hbackin
      · obtain ⟨rfl, rfl⟩ := List.cons.inj hbackeq
        exact hfirst (hin.subset (List.mem_cons_of_mem a List.mem_cons_self))
      · obtain ⟨rfl, rfl⟩ := List.cons.inj heq
        exact hfirst (hbackin.subset (List.mem_cons_of_mem b List.mem_cons_self))
      · obtain ⟨rfl, rfl⟩ := List.cons.inj heq
        obtain ⟨rfl, -⟩ := List.cons.inj hbackeq
        exact hfirst (hin.subset List.mem_cons_self)

variable {cmp : α → α → Ordering} [Std.TransCmp cmp]

theorem isLE_or_isLE (a b : α) : ((cmp a b).isLE || (cmp b a).isLE) = true := by
  have hswap : cmp b a = (cmp a b).swap := Std.OrientedCmp.eq_swap
  rw [hswap]
  cases cmp a b <;> rfl

theorem isLE_of_sorted (h : [a, b].Sublist (l.mergeSort fun a b => (cmp a b).isLE)) :
    (cmp a b).isLE = true :=
  List.pairwise_iff_forall_sublist.mp
    (List.pairwise_mergeSort (fun _ _ _ => Std.TransCmp.isLE_trans) isLE_or_isLE l) h

/-- What stands before in a sorted list and compares equal stood before already. -/
theorem pair_sublist_of_sorted (hl : l.Nodup) (heq : cmp a b = .eq)
    (h : [a, b].Sublist (l.mergeSort fun a b => (cmp a b).isLE)) : [a, b].Sublist l := by
  have hsorted : (l.mergeSort fun a b => (cmp a b).isLE).Nodup :=
    (List.mergeSort_perm l _).nodup_iff.mpr hl
  have hmem : ∀ c ∈ [a, b], c ∈ l := fun c hc => List.mem_mergeSort.mp (h.subset hc)
  have hne : a ≠ b := by simpa using hsorted.sublist h
  refine (pair_sublist_or_pair_sublist (hmem a (by simp)) (hmem b (by simp)) hne).resolve_right
    fun hback => ?_
  have hswap : cmp b a = (cmp a b).swap := Std.OrientedCmp.eq_swap
  have hle : (cmp b a).isLE = true := by
    rw [hswap, heq]
    rfl
  exact not_pair_sublist_of_pair_sublist hsorted h
    (List.pair_sublist_mergeSort (fun _ _ _ => Std.TransCmp.isLE_trans) isLE_or_isLE hle hback)

theorem pair_sublist_of_mem_take {k : Nat} (ha : a ∈ l.take k) (hb : b ∈ l) (hb' : b ∉ l.take k) :
    [a, b].Sublist l := by
  rw [← List.take_append_drop k l] at hb
  have hdrop : b ∈ l.drop k := (List.mem_append.mp hb).resolve_left hb'
  have hboth := (List.singleton_sublist.mpr ha).append (List.singleton_sublist.mpr hdrop)
  rwa [List.take_append_drop] at hboth

end Sorting

/-! ## The order of a collection -/

/-- The ids of a collection in the order of their arrival, after one more operation: a new id
comes last, one that is there keeps its place, and one that is removed loses it. -/
def StoreOperation.arrive (name : String) (ids : List DocumentId) :
    StoreOperation → List DocumentId
  | .insert other document =>
      match idOf? document with
      | some id => if other = name ∧ id ∉ ids then ids ++ [id] else ids
      | none => ids
  | .remove other id => if other = name then ids.erase id else ids
  | _ => ids

/-- The ids of a collection in the order of their arrival. -/
def arrivals (name : String) (operations : List StoreOperation) : List DocumentId :=
  operations.foldl (StoreOperation.arrive name) []

namespace Store

theorem documents_observe (s : Store) (name other : String) (query : Query) :
    (s.step (.observe other query)).documents name = s.documents name := by
  simp only [step]
  cases hobserve : s.observe other query with
  | error _ => rfl
  | ok opened =>
      obtain ⟨feed, next⟩ := opened
      obtain ⟨_, _, _, rfl⟩ := observe_eq_ok hobserve
      rfl

theorem documents_stop (s : Store) (name : String) (feed : FeedId) :
    (s.stop feed).documents name = s.documents name := by
  rw [documents, collections_stop, ← documents]

/-- One operation keeps a collection keyed, in the order of the arrivals. -/
theorem keyed_step {s : Store} {name : String} (h : Keyed (s.documents name))
    (operation : StoreOperation) :
    Keyed ((s.step operation).documents name) ∧
      idsOf ((s.step operation).documents name) =
        operation.arrive name (idsOf (s.documents name)) := by
  cases operation with
  | create other =>
      show Keyed ((s.createCollection other).documents name) ∧
        idsOf ((s.createCollection other).documents name) = idsOf (s.documents name)
      rw [documents_createCollection]
      exact ⟨h, rfl⟩
  | insert other document =>
      simp only [step, insert, StoreOperation.arrive]
      cases hid : idOf? document with
      | none => exact ⟨h, rfl⟩
      | some id =>
          by_cases hname : other = name
          · subst hname
            simp only [documents_write, if_true, true_and]
            refine ⟨h.upsert hid, ?_⟩
            rw [idsOf_upsert id document _ hid]
            by_cases hmem : id ∈ idsOf (s.documents other) <;> simp [hmem]
          · simp only [documents_write, hname, if_false, false_and]
            exact ⟨h, trivial⟩
  | update other id fields =>
      simp only [step, update, StoreOperation.arrive]
      split
      · rw [documents_write]
        split
        · next hname =>
            subst hname
            exact ⟨h.alter fun d => idOf?_merge d fields,
              idsOf_alter id _ _ fun d => idOf?_merge d fields⟩
        · exact ⟨h, rfl⟩
      · exact ⟨h, rfl⟩
  | remove other id =>
      simp only [step, remove, StoreOperation.arrive]
      by_cases hname : other = name
      · subst hname
        rw [if_pos rfl]
        split
        · rw [documents_write, if_pos rfl]
          exact ⟨h.without, idsOf_without id _⟩
        · next hholds =>
            have hnone : id ∉ idsOf (s.documents other) := fun hmem =>
              hholds ((holds_iff id _).mpr hmem)
            exact ⟨h, (List.erase_of_not_mem hnone).symm⟩
      · rw [if_neg hname]
        split
        · rw [documents_write, if_neg hname]
          exact ⟨h, rfl⟩
        · exact ⟨h, rfl⟩
  | observe other query =>
      rw [documents_observe]
      exact ⟨h, rfl⟩
  | poll feed => exact ⟨h, rfl⟩
  | stop feed =>
      show Keyed ((s.stop feed).documents name) ∧ idsOf ((s.stop feed).documents name) = _
      rw [documents_stop]
      exact ⟨h, rfl⟩
  | drop feed => exact ⟨h, rfl⟩

theorem keyed_run {s : Store} {name : String} (h : Keyed (s.documents name))
    (operations : List StoreOperation) :
    Keyed ((s.run operations).documents name) ∧
      idsOf ((s.run operations).documents name) =
        operations.foldl (StoreOperation.arrive name) (idsOf (s.documents name)) := by
  induction operations generalizing s with
  | nil => exact ⟨h, rfl⟩
  | cons operation rest ih =>
      obtain ⟨hkeyed, hids⟩ := keyed_step h operation
      obtain ⟨hrun, hall⟩ := ih hkeyed
      refine ⟨hrun, ?_⟩
      rw [run_cons, hall, hids, List.foldl_cons]

theorem keyed_documents_run (name : String) (operations : List StoreOperation) :
    Keyed ((empty.run operations).documents name) ∧
      idsOf ((empty.run operations).documents name) = arrivals name operations :=
  keyed_run (s := empty) keyed_nil operations

end Store

/-! ## The documents found -/

namespace Keyed

variable {documents : List Json}

theorem nodup (h : Keyed documents) : documents.Nodup := by
  refine (List.pairwise_filterMap.mp h.distinct).imp_of_mem fun {a b} ha _ hne hab => ?_
  obtain ⟨id, hid⟩ := h.readable a ha
  exact hne id hid id (hab ▸ hid) rfl

theorem map_idOf? (h : Keyed documents) : documents.map idOf? = (idsOf documents).map some := by
  rw [idsOf, List.map_filterMap, ← List.filterMap_eq_map]
  apply List.filterMap_congr
  intro document hmem
  obtain ⟨id, hid⟩ := h.readable document hmem
  simp [hid]

theorem filter (h : Keyed documents) (p : Json → Bool) : Keyed (documents.filter p) where
  readable := fun document hmem => h.readable document (List.mem_filter.mp hmem).1
  distinct := h.distinct.sublist (List.filter_sublist.filterMap idOf?)

theorem map_snd_filterMap_withId? (h : Keyed documents) :
    (documents.filterMap withId?).map Prod.snd = documents := by
  rw [List.map_filterMap]
  conv_rhs => rw [← List.filterMap_some (l := documents)]
  apply List.filterMap_congr
  intro document hmem
  obtain ⟨id, hid⟩ := h.readable document hmem
  simp [withId?, hid]

end Keyed

/-- `found` is the top of the matching documents: those that come first in the order, as many
as there may be, with documents that the order does not tell apart as they stand in the
collection. -/
structure IsTop (order : SortOrder) (limit : Nat) (documents matching found : List Json) :
    Prop where
  /-- Only matching documents are found, and none twice. -/
  subset : found ⊆ matching
  nodup : found.Nodup
  /-- No more are found than allowed, and no fewer than there are. -/
  length_eq : found.length = min limit matching.length
  /-- What is found is sorted, and the sort is stable. -/
  sorted : found.Pairwise fun a b => order.compare a b ≠ .gt
  stable : found.Pairwise fun a b => order.compare a b = .eq → [a, b].Sublist documents
  /-- What is left out comes after all that is found. -/
  rest : ∀ out ∈ matching, out ∉ found → ∀ document ∈ found,
    order.compare out document ≠ .lt ∧
      (order.compare out document = .eq → [document, out].Sublist documents)

theorem IsTop.pair_sublist {order : SortOrder} {limit : Nat} {documents matching found : List Json}
    (h : IsTop order limit documents matching found) (hdocuments : documents.Nodup) {a b : Json}
    (ha : a ∈ matching) (hb : b ∈ found)
    (hab : order.compare a b = .lt ∨ order.compare a b = .eq ∧ [a, b].Sublist documents) :
    [a, b].Sublist found := by
  have hswap : order.compare b a = (order.compare a b).swap := Std.OrientedCmp.eq_swap
  have hne : a ≠ b := by
    rintro rfl
    rcases hab with hlt | ⟨-, hsub⟩
    · have hself : order.compare a a = .eq := Std.ReflCmp.compare_self
      rw [hself] at hlt
      cases hlt
    · simpa using hdocuments.sublist hsub
  have hfound : a ∈ found := by
    by_contra hleft
    obtain ⟨hrest, hstable⟩ := h.rest a ha hleft b hb
    rcases hab with hlt | ⟨heq, hsub⟩
    · exact hrest hlt
    · exact not_pair_sublist_of_pair_sublist hdocuments hsub (hstable heq)
  refine (pair_sublist_or_pair_sublist hfound hb hne).resolve_right fun hback => ?_
  rcases hab with hlt | ⟨heq, hsub⟩
  · rw [hlt] at hswap
    exact List.pairwise_iff_forall_sublist.mp h.sorted hback hswap
  · rw [heq] at hswap
    exact not_pair_sublist_of_pair_sublist hdocuments hsub
      (List.pairwise_iff_forall_sublist.mp h.stable hback hswap)

theorem mergeSort_empty {α : Type} (l : List α) (f : α → Json) :
    (l.mergeSort fun a b => (SortOrder.empty.compare (f a) (f b)).isLE) = l :=
  List.mergeSort_of_pairwise (List.pairwise_of_forall fun _ _ => rfl)

namespace Results

/-- Without a sort order documents are sorted by the order that prefers nothing. -/
theorem sorted_eq (results : Results) (sort : Option SortOrder) :
    sorted results sort =
      List.mergeSort results fun a b => ((sort.getD .empty).compare a.2 b.2).isLE := by
  cases sort with
  | none => exact (mergeSort_empty results Prod.snd).symm
  | some order => rfl

theorem documents_of {documents : List Json} (h : Keyed documents) (selector : Selector)
    (sort : Option SortOrder) (limit : Nat) :
    (Results.of documents selector sort limit).map Prod.snd =
      ((documents.filter selector.accepts).mergeSort fun a b =>
        ((sort.getD .empty).compare a b).isLE).take limit := by
  have hsorted := List.map_mergeSort (f := Prod.snd)
    (l := (documents.filter selector.accepts).filterMap withId?)
    (r := fun a b => ((sort.getD .empty).compare a.2 b.2).isLE)
    (s := fun a b => ((sort.getD .empty).compare a b).isLE) fun _ _ _ _ => rfl
  rw [Results.of, sorted_eq, List.map_take, hsorted,
    (h.filter selector.accepts).map_snd_filterMap_withId?]

end Results

theorem isTop_take_mergeSort {documents matching : List Json} (hdocuments : documents.Nodup)
    (hmatching : matching.Sublist documents) (order : SortOrder) (limit : Nat) :
    IsTop order limit documents matching
      ((matching.mergeSort fun a b => (order.compare a b).isLE).take limit) := by
  have hnodup : matching.Nodup := hdocuments.sublist hmatching
  have hperm := List.mergeSort_perm matching fun a b => (order.compare a b).isLE
  have htake := List.take_sublist limit (matching.mergeSort fun a b => (order.compare a b).isLE)
  refine ⟨fun document hmem => hperm.subset (htake.subset hmem),
    (hperm.nodup_iff.mpr hnodup).sublist htake, ?_, ?_, ?_, ?_⟩
  · rw [List.length_take, List.length_mergeSort]
  · refine List.pairwise_iff_forall_sublist.mpr fun {a b} h hgt => ?_
    have hle := isLE_of_sorted (h.trans htake)
    rw [hgt] at hle
    cases hle
  · refine List.pairwise_iff_forall_sublist.mpr fun {a b} h heq => ?_
    exact (pair_sublist_of_sorted hnodup heq (h.trans htake)).trans hmatching
  · intro out hout hleft document hfound
    have h := pair_sublist_of_mem_take hfound (hperm.mem_iff.mpr hout) hleft
    have hswap : order.compare document out = (order.compare out document).swap :=
      Std.OrientedCmp.eq_swap
    refine ⟨fun hlt => ?_, fun heq => ?_⟩
    · have hle := isLE_of_sorted h
      rw [hswap, hlt] at hle
      cases hle
    · rw [heq] at hswap
      exact (pair_sublist_of_sorted hnodup hswap h).trans hmatching

namespace Store

theorem find_eq_ok {s : Store} {name : String} (hkeyed : Keyed (s.documents name)) {query : Query}
    {selector : Selector} (h : Selector.compile query.selector = .ok selector) :
    s.find name query =
      .ok ((((s.documents name).filter selector.accepts).mergeSort fun a b =>
        ((query.sort.getD .empty).compare a b).isLE).take query.limit) := by
  rw [find, h]
  exact congrArg Except.ok (Results.documents_of hkeyed selector query.sort query.limit)

/-- In every store that operations lead to, a query with an acceptable selector finds as many of
the documents of the collection that the selector accepts as its limit allows, sorted as the query
asks for. A collection keeps its documents in the order of their arrival, and it is this order
that decides between documents that the sort order does not tell apart, among those that are found
and between them and those that are left out; without a sort order it decides alone. -/
theorem find_is_top (operations : List StoreOperation) (name : String) (query : Query)
    (selector : Selector) (h : Selector.compile query.selector = .ok selector) :
    ∃ found, (empty.run operations).find name query = .ok found ∧
      IsTop (query.sort.getD .empty) query.limit ((empty.run operations).documents name)
        (((empty.run operations).documents name).filter selector.accepts) found ∧
      (query.sort = none → found =
        (((empty.run operations).documents name).filter selector.accepts).take query.limit) ∧
      ((empty.run operations).documents name).map idOf? = (arrivals name operations).map some := by
  obtain ⟨hkeyed, harrivals⟩ := keyed_documents_run name operations
  refine ⟨_, find_eq_ok hkeyed h,
    isTop_take_mergeSort hkeyed.nodup List.filter_sublist _ query.limit, ?_, ?_⟩
  · intro hsort
    exact congrArg (List.take query.limit) (hsort ▸ mergeSort_empty _ id)
  · rw [hkeyed.map_idOf?, harrivals]

/-- A note of a kind with a rank. -/
def note (id kind : String) (rank : Json) : Json :=
  .object [("_id", .string id), ("kind", .string kind), ("rank", rank)]

/-- Notes of two kinds with numbers and a text as ranks; one of them comes and goes. -/
def fourNotes : List StoreOperation :=
  [.insert "notes" (note "a" "x" (.ofInt 2)), .insert "notes" (note "b" "y" (.ofInt 7)),
    .insert "notes" (note "z" "x" .null), .insert "notes" (note "d" "x" (.string "t")),
    .insert "notes" (note "e" "x" (.ofInt 2)), .remove "notes" (.plain "z")]

/-- The two notes of one kind with the highest ranks. -/
def highestRanks : Query :=
  ⟨.object [("kind", .string "x")], 2, some ⟨[("rank", .descending)]⟩⟩

/-- Texts rank above numbers, and of two equal numbers the one that came in first is found. -/
theorem find_is_top_descending :
    Selector.compile highestRanks.selector =
        .ok (.all [.field "kind" (.equals (.string "x"))]) ∧
      ∃ found, (empty.run fourNotes).find "notes" highestRanks = .ok found ∧
        found = [note "d" "x" (.string "t"), note "a" "x" (.ofInt 2)] ∧
        IsTop ⟨[("rank", .descending)]⟩ 2 ((empty.run fourNotes).documents "notes")
          [note "a" "x" (.ofInt 2), note "d" "x" (.string "t"), note "e" "x" (.ofInt 2)]
          found := by
  have hcompile : Selector.compile highestRanks.selector =
      .ok (.all [.field "kind" (.equals (.string "x"))]) := by rfl
  have hmatching : ((empty.run fourNotes).documents "notes").filter
      (Selector.all [.field "kind" (.equals (.string "x"))]).accepts =
        [note "a" "x" (.ofInt 2), note "d" "x" (.string "t"), note "e" "x" (.ofInt 2)] := by
    decide +kernel
  have hsorted : ([note "a" "x" (.ofInt 2), note "d" "x" (.string "t"),
      note "e" "x" (.ofInt 2)].mergeSort fun a b =>
        ((highestRanks.sort.getD .empty).compare a b).isLE) =
          [note "d" "x" (.string "t"), note "a" "x" (.ofInt 2), note "e" "x" (.ofInt 2)] := by
    have had : ((highestRanks.sort.getD .empty).compare (note "a" "x" (.ofInt 2))
      (note "d" "x" (.string "t"))).isLE = false := by decide +kernel
    have hae : ((highestRanks.sort.getD .empty).compare (note "a" "x" (.ofInt 2))
      (note "e" "x" (.ofInt 2))).isLE = true := by decide +kernel
    have hde : ((highestRanks.sort.getD .empty).compare (note "d" "x" (.string "t"))
      (note "e" "x" (.ofInt 2))).isLE = true := by decide +kernel
    simp [List.mergeSort, List.MergeSort.Internal.splitInTwo, had, hae, hde]
  obtain ⟨found, hfound, htop, -, -⟩ := find_is_top fourNotes "notes" highestRanks _ hcompile
  have hfind := find_eq_ok (keyed_documents_run "notes" fourNotes).1 hcompile
  rw [hmatching, hsorted] at hfind
  rw [hmatching] at htop
  exact ⟨hcompile, found, hfound, Except.ok.inj (hfound.symm.trans hfind), htop⟩

end Store

end LiveDocuments
