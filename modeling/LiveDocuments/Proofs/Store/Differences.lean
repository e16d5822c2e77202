import LiveDocuments.Proofs.Store.Changes

/-!
# What is told of each document

The changes between two lists of results can be read document by document. A document that
is gone is removed, one that is new is added, and of the others those that changed their rank
among all that stayed are removed and added again (`mem_moved_iff`); the rest is altered or
not mentioned at all (`changesOf_cases`). So nothing is told exactly if the lists agree.
-/

namespace LiveDocuments

namespace Results

/-- The changes about one document, in their order. -/
def changesOf (old new : Results) (id : DocumentId) : List ChangeEvent :=
  (changes old new).filter fun event => event.id = id

/-- The place of a document among those that are in the other results too. -/
def rank (results others : Results) (id : DocumentId) : Nat := (retained results others).idxOf id

/-- The document directly behind another one. -/
def next? (id : DocumentId) : Results → Option DocumentId
  | [] => none
  | entry :: rest => if entry.1 = id then rest.head?.map Prod.fst else next? id rest

theorem next?_cons (id : DocumentId) (entry : DocumentId × Json) (rest : Results) :
    next? id (entry :: rest) =
      if entry.1 = id then rest.head?.map Prod.fst else next? id rest := rfl

/-! ## The documents that moved -/

/-- Two lists of the same things: those that stand opposite something else are those that
have another place in the other list. -/
theorem mem_unequal_pairs_iff {α : Type} [DecidableEq α] {as bs : List α} (hbs : bs.Nodup)
    (hlength : as.length = bs.length) {a : α} (ha : a ∈ as) (hb : a ∈ bs) (has : as.Nodup) :
    a ∈ ((as.zip bs).filter fun pair => pair.1 ≠ pair.2).map Prod.fst ↔
      as.idxOf a ≠ bs.idxOf a := by
  constructor
  · intro hmem heq
    rcases List.mem_map.mp hmem with ⟨⟨x, y⟩, hpair, rfl⟩
    obtain ⟨hpair, hne⟩ := List.mem_filter.mp hpair
    obtain ⟨i, hi, hget⟩ := List.getElem_of_mem hpair
    rw [List.getElem_zip, Prod.mk.injEq] at hget
    have hia : i < as.length := (List.lt_length_left_of_zip hi)
    have hib : i < bs.length := (List.lt_length_right_of_zip hi)
    have hplace : as.idxOf x = i := hget.1 ▸ has.idxOf_getElem i hia
    have hsame : bs[i] = x := by
      have hindex : bs.idxOf x = i := heq.symm.trans hplace
      have hget' := List.getElem_idxOf (List.idxOf_lt_length_iff.mpr hb)
      simpa only [hindex] using hget'
    rw [hget.2] at hsame
    exact of_decide_eq_true hne hsame.symm
  · intro hne
    have hia : as.idxOf a < as.length := List.idxOf_lt_length_iff.mpr ha
    have hib : as.idxOf a < bs.length := hlength ▸ hia
    have hopposite : bs[as.idxOf a] ≠ a := by
      intro heq
      have hindex := hbs.idxOf_getElem (as.idxOf a) hib
      rw [heq] at hindex
      exact hne hindex.symm
    have hpair : (a, bs[as.idxOf a]) ∈ as.zip bs := by
      have hi : as.idxOf a < (as.zip bs).length := by
        rw [List.length_zip]
        omega
      have hget : (as.zip bs)[as.idxOf a] = (a, bs[as.idxOf a]) := by
        rw [List.getElem_zip, List.getElem_idxOf]
      exact hget ▸ List.getElem_mem hi
    refine List.mem_map.mpr ⟨_, List.mem_filter.mpr ⟨hpair, ?_⟩, rfl⟩
    exact decide_eq_true (Ne.symm hopposite)

/-- Of the documents that stayed those have moved whose rank is another one. -/
theorem mem_moved_iff {old new : Results} (hold : (ids old).Nodup) (hnew : (ids new).Nodup)
    {id : DocumentId} (hidOld : id ∈ ids old) (hidNew : id ∈ ids new) :
    id ∈ moved old new ↔ rank old new id ≠ rank new old id :=
  mem_unequal_pairs_iff (nodup_retained new old hnew)
    (length_retained_comm old new hold hnew) ((mem_retained old new id).mpr ⟨hidOld, hidNew⟩)
    ((mem_retained new old id).mpr ⟨hidNew, hidOld⟩) (nodup_retained old new hold)

theorem isKept_iff_rank_eq {old new : Results} (hold : (ids old).Nodup)
    (hnew : (ids new).Nodup) {id : DocumentId} (hidOld : id ∈ ids old) (hidNew : id ∈ ids new) :
    isKept old new id = true ↔ rank old new id = rank new old id := by
  rw [isKept_iff, mem_moved_iff hold hnew hidOld hidNew, not_ne_iff]
  exact ⟨fun h => h.2.2, fun h => ⟨hidOld, hidNew, h⟩⟩

/-! ## The three parts, document by document -/

theorem filter_id_of_mem {results : Results} (hnodup : (ids results).Nodup)
    {entry : DocumentId × Json} (hentry : entry ∈ results) :
    results.filter (fun other => other.1 = entry.1) = [entry] := by
  induction results with
  | nil => exact absurd hentry List.not_mem_nil
  | cons first rest ih =>
      rcases List.nodup_cons.mp hnodup with ⟨hfirst, hrest⟩
      rcases List.mem_cons.mp hentry with rfl | hmem
      · rw [List.filter_cons_of_pos (by simp), List.filter_eq_nil_iff.mpr]
        intro other hother
        have hne : other.1 ≠ entry.1 := fun h => hfirst (h ▸ List.mem_map_of_mem hother)
        simpa using hne
      · have hne : first.1 ≠ entry.1 := fun h => hfirst (h ▸ List.mem_map_of_mem hmem)
        rw [List.filter_cons_of_neg (by simpa using hne), ih hrest hmem]

theorem filter_id_of_not_mem {results : Results} {id : DocumentId} (hid : id ∉ ids results) :
    results.filter (fun other => other.1 = id) = [] := by
  rw [List.filter_eq_nil_iff]
  intro other hother
  have hne : other.1 ≠ id := fun h => hid (h ▸ List.mem_map_of_mem hother)
  simpa using hne

section

variable {old new : Results} {id : DocumentId}

theorem filter_removals (old new : Results) (id : DocumentId) :
    (removals old new).filter (fun event => event.id = id) =
      if isKept old new id then [] else
        (old.filter fun entry => entry.1 = id).map fun entry => .removed entry.1 := by
  have hparts : (removals old new).filter (fun event => event.id = id) =
      ((old.filter fun entry => entry.1 = id).filter fun entry => !isKept old new entry.1).map
        fun entry => .removed entry.1 := by
    simp only [removals, ids, List.filter_map, List.map_map, List.filter_filter]
    congr 1
    apply List.filter_congr
    intro entry _
    exact Bool.and_comm _ _
  rw [hparts]
  split
  · next hkept =>
      rw [List.map_eq_nil_iff, List.filter_eq_nil_iff]
      intro entry hentry
      obtain rfl : entry.1 = id := of_decide_eq_true (List.mem_filter.mp hentry).2
      simp [hkept]
  · next hkept =>
      rw [List.filter_eq_self.mpr]
      intro entry hentry
      obtain rfl : entry.1 = id := of_decide_eq_true (List.mem_filter.mp hentry).2
      simpa using hkept

theorem id_of_alteration? {entry : DocumentId × Json} {event : ChangeEvent}
    (h : alteration? old new entry = some event) : event.id = entry.1 := by
  unfold alteration? at h
  split at h
  · split at h
    · split at h
      · cases h
      · obtain rfl := Option.some.inj h
        rfl
    · cases h
  · cases h

theorem filter_alterations (old new : Results) (id : DocumentId) :
    (alterations old new).filter (fun event => event.id = id) =
      (new.filter fun entry => entry.1 = id).filterMap (alteration? old new) := by
  rw [alterations, List.filter_filterMap, List.filterMap_filter]
  apply List.filterMap_congr
  intro entry _
  cases halter : alteration? old new entry with
  | none => simp
  | some event =>
      have hid := id_of_alteration? halter
      by_cases h : entry.1 = id <;> simp [hid, h]

theorem filter_additions_of_not_mem (kept : DocumentId → Bool) {results : Results}
    (hid : id ∉ ids results) :
    (additions kept results).filter (fun event => event.id = id) = [] := by
  induction results with
  | nil => rfl
  | cons first rest ih =>
      obtain ⟨hfirst, hrest⟩ := not_or.mp (fun h => hid (List.mem_cons.mpr h))
      rw [additions_cons, List.filter_append, ih hrest]
      split
      · rfl
      · simp [ChangeEvent.id, Ne.symm hfirst]

/-- A document that is not kept is added once, before the one that follows it. -/
theorem filter_additions_of_mem (kept : DocumentId → Bool) {results : Results}
    (hnodup : (ids results).Nodup) {entry : DocumentId × Json} (hentry : entry ∈ results) :
    (additions kept results).filter (fun event => event.id = entry.1) =
      if kept entry.1 then [] else [.added entry.1 entry.2 (next? entry.1 results)] := by
  induction results with
  | nil => exact absurd hentry List.not_mem_nil
  | cons first rest ih =>
      rcases List.nodup_cons.mp hnodup with ⟨hfirst, hrest⟩
      rw [additions_cons, List.filter_append, next?_cons]
      rcases List.mem_cons.mp hentry with rfl | hmem
      · rw [filter_additions_of_not_mem kept hfirst, if_pos rfl, List.nil_append]
        split
        · rfl
        · simp [ChangeEvent.id]
      · have hne : first.1 ≠ entry.1 := fun h => hfirst (h ▸ List.mem_map_of_mem hmem)
        rw [ih hrest hmem, if_neg hne, List.append_right_eq_self]
        split
        · rfl
        · simp [ChangeEvent.id, hne]

/-! ## All changes about a document -/

theorem changesOf_eq (old new : Results) (id : DocumentId) :
    changesOf old new id =
      (removals old new).filter (fun event => event.id = id) ++
        (alterations old new).filter (fun event => event.id = id) ++
        (additions (isKept old new) new).filter fun event => event.id = id := by
  rw [changesOf, changes, List.filter_append, List.filter_append]

theorem changesOf_of_absent (hidOld : id ∉ ids old) (hidNew : id ∉ ids new) :
    changesOf old new id = [] := by
  rw [changesOf_eq, filter_removals, filter_alterations, filter_id_of_not_mem hidOld,
    filter_id_of_not_mem hidNew, filter_additions_of_not_mem _ hidNew]
  simp

theorem changesOf_of_gone (hold : (ids old).Nodup) (hidOld : id ∈ ids old)
    (hidNew : id ∉ ids new) : changesOf old new id = [.removed id] := by
  obtain ⟨entry, hentry, rfl⟩ := List.mem_map.mp hidOld
  have hkept : ¬ isKept old new entry.1 = true := fun h => hidNew ((isKept_iff _ _ _).mp h).2.1
  rw [changesOf_eq, filter_removals, filter_alterations, filter_id_of_mem hold hentry,
    filter_id_of_not_mem hidNew, filter_additions_of_not_mem _ hidNew, if_neg hkept]
  rfl

theorem changesOf_of_new (hnew : (ids new).Nodup) {entry : DocumentId × Json}
    (hentry : entry ∈ new) (hidOld : entry.1 ∉ ids old) :
    changesOf old new entry.1 = [.added entry.1 entry.2 (next? entry.1 new)] := by
  have hkept : ¬ isKept old new entry.1 = true := fun h => hidOld ((isKept_iff _ _ _).mp h).1
  have halter : alteration? old new entry = none := by
    rw [alteration?, if_neg hkept]
  rw [changesOf_eq, filter_removals, filter_alterations, filter_id_of_not_mem hidOld,
    filter_id_of_mem hnew hentry, filter_additions_of_mem _ hnew hentry, if_neg hkept,
    if_neg hkept, List.filterMap_cons_none halter]
  rfl

theorem changesOf_of_moved (hold : (ids old).Nodup) (hnew : (ids new).Nodup)
    {entry : DocumentId × Json} (hentry : entry ∈ new) (hidOld : entry.1 ∈ ids old)
    (hrank : rank old new entry.1 ≠ rank new old entry.1) :
    changesOf old new entry.1 =
      [.removed entry.1, .added entry.1 entry.2 (next? entry.1 new)] := by
  have hidNew : entry.1 ∈ ids new := List.mem_map_of_mem hentry
  have hkept : ¬ isKept old new entry.1 = true :=
    fun h => hrank ((isKept_iff_rank_eq hold hnew hidOld hidNew).mp h)
  have halter : alteration? old new entry = none := by
    rw [alteration?, if_neg hkept]
  obtain ⟨before, hbefore, hid⟩ := List.mem_map.mp hidOld
  rw [changesOf_eq, filter_removals, filter_alterations, ← hid, filter_id_of_mem hold hbefore,
    hid, filter_id_of_mem hnew hentry, filter_additions_of_mem _ hnew hentry, if_neg hkept,
    if_neg hkept, List.filterMap_cons_none halter, List.map_singleton, hid]
  rfl

/-- A document that kept its rank is told of only if its content is another one. -/
theorem changesOf_of_kept (hold : (ids old).Nodup) (hnew : (ids new).Nodup)
    {before after : DocumentId × Json} (hbefore : before ∈ old) (hafter : after ∈ new)
    (hid : before.1 = after.1) (hrank : rank old new after.1 = rank new old after.1) :
    changesOf old new after.1 =
      if before.2.same after.2 then [] else [.changed after.1 after.2] := by
  have hidOld : after.1 ∈ ids old := hid ▸ List.mem_map_of_mem hbefore
  have hidNew : after.1 ∈ ids new := List.mem_map_of_mem hafter
  have hkept : isKept old new after.1 = true :=
    (isKept_iff_rank_eq hold hnew hidOld hidNew).mpr hrank
  have hdocument : document? old after.1 = some before.2 := hid ▸ document?_eq_some hold hbefore
  rw [changesOf_eq, filter_removals, filter_alterations, filter_id_of_mem hnew hafter,
    filter_additions_of_mem _ hnew hafter, if_pos hkept, if_pos hkept]
  by_cases hsame : before.2.same after.2 = true <;>
    simp [alteration?, hkept, hdocument, hsame]

end

/-! ## Lists that agree -/

theorem changes_eq_nil_iff (old new : Results) :
    changes old new = [] ↔ ∀ id, changesOf old new id = [] := by
  constructor
  · intro h id
    rw [changesOf, h, List.filter_nil]
  · intro h
    rw [List.eq_nil_iff_forall_not_mem]
    intro event hevent
    have hmem : event ∈ changesOf old new event.id :=
      List.mem_filter.mpr ⟨hevent, decide_eq_true rfl⟩
    rw [h] at hmem
    exact List.not_mem_nil hmem

theorem Agrees.exists_before {old new : Results} (h : Agrees old new)
    {after : DocumentId × Json} (hafter : after ∈ new) :
    ∃ before ∈ old, before.1 = after.1 ∧ before.2.same after.2 = true := by
  induction h with
  | nil => exact absurd hafter List.not_mem_nil
  | @cons x y _ _ hxy _ ih =>
      rcases List.mem_cons.mp hafter with rfl | hrest
      · exact ⟨x, List.mem_cons_self, hxy⟩
      · obtain ⟨before, hbefore, hagrees⟩ := ih hrest
        exact ⟨before, List.mem_cons_of_mem _ hbefore, hagrees⟩

theorem rank_eq_of_ids_eq {old new : Results} (h : ids old = ids new) (id : DocumentId) :
    rank old new id = rank new old id := by
  rw [rank, rank, retained, retained, h]

theorem changes_of_agrees {old new : Results} (hold : (ids old).Nodup) (hnew : (ids new).Nodup)
    (h : Agrees old new) : changes old new = [] := by
  rw [changes_eq_nil_iff]
  intro id
  by_cases hidNew : id ∈ ids new
  · obtain ⟨after, hafter, rfl⟩ := List.mem_map.mp hidNew
    obtain ⟨before, hbefore, hid, hsame⟩ := h.exists_before hafter
    rw [changesOf_of_kept hold hnew hbefore hafter hid (rank_eq_of_ids_eq h.ids_eq _),
      if_pos hsame]
  · exact changesOf_of_absent (h.ids_eq ▸ hidNew) hidNew

theorem agrees_of_changes {old new : Results} (hold : (ids old).Nodup) (hnew : (ids new).Nodup)
    (h : changes old new = []) : Agrees old new := by
  have hnothing := (changes_eq_nil_iff old new).mp h
  have hboth : ∀ id, id ∈ ids old ∨ id ∈ ids new → isKept old new id = true := by
    intro id hid
    by_contra hkept
    rcases hid with hidOld | hidNew
    · obtain ⟨before, hbefore, rfl⟩ := List.mem_map.mp hidOld
      have hnone := hnothing before.1
      rw [changesOf_eq, filter_removals, if_neg hkept, filter_id_of_mem hold hbefore] at hnone
      simp at hnone
    · obtain ⟨after, hafter, rfl⟩ := List.mem_map.mp hidNew
      have hnone := hnothing after.1
      rw [changesOf_eq, filter_additions_of_mem _ hnew hafter, if_neg hkept] at hnone
      simp at hnone
  have hsucceeds := forall₂_succeeds old new hold hnew
  rw [List.filter_eq_self.mpr fun entry hentry => hboth _ (.inl (List.mem_map_of_mem hentry)),
    List.filter_eq_self.mpr fun entry hentry => hboth _ (.inr (List.mem_map_of_mem hentry))]
    at hsucceeds
  have hunaltered : ∀ after ∈ new, alteration? old new after = none := by
    intro after hafter
    have hnone := hnothing after.1
    rw [changesOf_eq, filter_alterations, filter_id_of_mem hnew hafter] at hnone
    simpa using (List.append_eq_nil_iff.mp (List.append_eq_nil_iff.mp hnone).1).2
  refine (List.Forall₂.imp ?_ ((List.forall₂_and_left new old).mpr
    ⟨hunaltered, hsucceeds.flip⟩)).flip
  rintro after before ⟨hnone, hid, hkept, hdocument⟩
  refine ⟨hid, ?_⟩
  by_contra hsame
  simp [alteration?, hkept, hdocument, hsame] at hnone

/-- Of a document that is gone exactly its removal is told, of one that is new its addition, and
of one whose rank among those that stayed is another one its removal and then its addition. Of one
that kept its rank its change is told if its content is another one, and nothing otherwise. So
nothing at all is told exactly if both lists hold the same documents in the same order. -/
theorem changesOf_cases (old new : Results) (hold : (ids old).Nodup) (hnew : (ids new).Nodup) :
    (∀ id, id ∉ ids old → id ∉ ids new → changesOf old new id = []) ∧
    (∀ id, id ∈ ids old → id ∉ ids new → changesOf old new id = [.removed id]) ∧
    (∀ after ∈ new, after.1 ∉ ids old →
      changesOf old new after.1 = [.added after.1 after.2 (next? after.1 new)]) ∧
    (∀ before ∈ old, ∀ after ∈ new, before.1 = after.1 →
      changesOf old new after.1 =
        if rank old new after.1 ≠ rank new old after.1 then
          [.removed after.1, .added after.1 after.2 (next? after.1 new)]
        else if before.2.same after.2 then []
        else [.changed after.1 after.2]) ∧
    (changes old new = [] ↔ Agrees old new) := by
  refine ⟨fun id hidOld hidNew => changesOf_of_absent hidOld hidNew,
    fun id hidOld hidNew => changesOf_of_gone hold hidOld hidNew,
    fun after hafter hidOld => changesOf_of_new hnew hafter hidOld, ?_,
    agrees_of_changes hold hnew, changes_of_agrees hold hnew⟩
  intro before hbefore after hafter hid
  split
  · next hrank =>
      exact changesOf_of_moved hold hnew hafter (hid ▸ List.mem_map_of_mem hbefore) hrank
  · next hrank => exact changesOf_of_kept hold hnew hbefore hafter hid (not_ne_iff.mp hrank)

/-- Four documents in their old order. -/
def fourRanked : Results :=
  [(.plain "a", .null), (.plain "b", .null), (.plain "c", .null), (.plain "e", .null)]

/-- The first and the third have changed places, the second has given way to another one, and
the last is altered. -/
def fourReordered : Results :=
  [(.plain "c", .null), (.plain "a", .null), (.plain "d", .null), (.plain "e", .bool true)]

theorem changesOf_cases_reordered :
    (ids fourRanked).Nodup ∧ (ids fourReordered).Nodup ∧
      changesOf fourRanked fourReordered (.plain "b") = [.removed (.plain "b")] ∧
      changesOf fourRanked fourReordered (.plain "d") =
        [.added (.plain "d") .null (some (.plain "e"))] ∧
      changesOf fourRanked fourReordered (.plain "a") =
        [.removed (.plain "a"), .added (.plain "a") .null (some (.plain "d"))] ∧
      changesOf fourRanked fourReordered (.plain "e") = [.changed (.plain "e") (.bool true)] := by
  have hold : (ids fourRanked).Nodup := by decide
  have hnew : (ids fourReordered).Nodup := by decide
  obtain ⟨-, hgone, hadded, hboth, -⟩ := changesOf_cases fourRanked fourReordered hold hnew
  refine ⟨hold, hnew, hgone (.plain "b") (by decide) (by decide),
    hadded (.plain "d", .null) (by decide) (by decide), ?_, ?_⟩
  · rw [hboth (.plain "a", .null) (by decide) (.plain "a", .null) (by decide) rfl,
      if_pos (by decide)]
    rfl
  · rw [hboth (.plain "e", .null) (by decide) (.plain "e", .bool true) (by decide) rfl,
      if_neg (by decide), if_neg (by decide)]

end Results

end LiveDocuments
