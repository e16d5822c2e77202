import LiveDocuments.Proofs.Store.Replay
import Mathlib.Data.List.Perm.Basic

/-!
# Changes lead from the old results to the new ones

The changes between two lists of results are legal for a strict reader of the old
ones and leave it with the new ones. The reader may hold documents that only agree
with the old results: a document that agrees with its predecessor is not reported.

The documents that stayed and changed their rank are moved, and all others that
stayed are kept. What carries the proof is that the kept documents stand in the
same order in both lists (`filter_isKept_eq`), so that removing all others from the
old list and adding all others of the new one meet in the middle.
-/

namespace LiveDocuments

namespace Results

/-! ## The kept documents -/

theorem isKept_iff (old new : Results) (id : DocumentId) :
    isKept old new id = true ↔
      id ∈ ids old ∧ id ∈ ids new ∧ id ∉ moved old new := by
  simp [isKept, and_assoc]

/-- Pairs that differ, told by their first parts: dropping these from the first
parts leaves the pairs that are equal. -/
theorem filter_fst_of_pairs {α : Type} [DecidableEq α] (pairs : List (α × α))
    (hfst : (pairs.map Prod.fst).Nodup) :
    (pairs.map Prod.fst).filter
        (fun a => a ∉ (pairs.filter fun p => p.1 ≠ p.2).map Prod.fst) =
      (pairs.filter fun p => p.1 = p.2).map Prod.fst := by
  rw [List.filter_map]
  congr 1
  apply List.filter_congr
  intro p hp
  have hiff : p.1 ∈ (pairs.filter fun p => p.1 ≠ p.2).map Prod.fst ↔ p.1 ≠ p.2 := by
    constructor
    · intro hmem
      rcases List.mem_map.mp hmem with ⟨q, hq, hqp⟩
      rcases List.mem_filter.mp hq with ⟨hq, hne⟩
      obtain rfl := List.inj_on_of_nodup_map hfst hq hp hqp
      simpa using hne
    · intro hne
      exact List.mem_map.mpr ⟨p, List.mem_filter.mpr ⟨hp, by simpa using hne⟩, rfl⟩
  simp only [Function.comp_apply, hiff]
  simp

/-- Dropping them from the second parts leaves the same, if both parts are made of
the same things. -/
theorem filter_snd_of_pairs {α : Type} [DecidableEq α] (pairs : List (α × α))
    (hfst : (pairs.map Prod.fst).Nodup) (hsnd : (pairs.map Prod.snd).Nodup)
    (hmem : ∀ p ∈ pairs, p.2 ∈ pairs.map Prod.fst) :
    (pairs.map Prod.snd).filter
        (fun a => a ∉ (pairs.filter fun p => p.1 ≠ p.2).map Prod.fst) =
      (pairs.filter fun p => p.1 = p.2).map Prod.fst := by
  have hiff : ∀ p ∈ pairs,
      (p.2 ∈ (pairs.filter fun p => p.1 ≠ p.2).map Prod.fst ↔ p.1 ≠ p.2) := by
    intro p hp
    constructor
    · intro hp2 heq
      rcases List.mem_map.mp hp2 with ⟨q, hq, hqp⟩
      rcases List.mem_filter.mp hq with ⟨hq, hne⟩
      obtain rfl := List.inj_on_of_nodup_map hfst hq hp (hqp.trans heq.symm)
      simp [heq] at hne
    · intro hne
      rcases List.mem_map.mp (hmem p hp) with ⟨q, hq, hqp⟩
      refine List.mem_map.mpr ⟨q, List.mem_filter.mpr ⟨hq, ?_⟩, hqp⟩
      -- Were `q` a pair of equals, its second part would be that of `p`.
      have hqne : q.1 ≠ q.2 := by
        intro heq
        obtain rfl := List.inj_on_of_nodup_map hsnd hq hp (heq.symm.trans hqp)
        exact hne heq
      simpa using hqne
  have heq : (pairs.filter fun p => p.1 = p.2).map Prod.fst =
      (pairs.filter fun p => p.1 = p.2).map Prod.snd := by
    apply List.map_congr_left
    intro p hp
    simpa using (List.mem_filter.mp hp).2
  rw [heq, List.filter_map]
  congr 1
  apply List.filter_congr
  intro p hp
  simp only [Function.comp_apply, hiff p hp]
  simp

theorem mem_retained (a b : Results) (id : DocumentId) :
    id ∈ retained a b ↔ id ∈ ids a ∧ id ∈ ids b := by
  simp [retained]

theorem nodup_retained (a b : Results) (ha : (ids a).Nodup) : (retained a b).Nodup :=
  ha.filter _

/-- As many documents stayed seen from the new results as from the old ones. -/
theorem length_retained_comm (a b : Results) (ha : (ids a).Nodup) (hb : (ids b).Nodup) :
    (retained a b).length = (retained b a).length := by
  apply List.Perm.length_eq
  rw [List.perm_ext_iff_of_nodup (nodup_retained a b ha) (nodup_retained b a hb)]
  intro id
  rw [mem_retained, mem_retained, and_comm]

/-- The kept documents stand in the same order in the old and in the new results. -/
theorem filter_isKept_eq (old new : Results) (hold : (ids old).Nodup)
    (hnew : (ids new).Nodup) :
    (ids old).filter (isKept old new) = (ids new).filter (isKept old new) := by
  have hlen := length_retained_comm old new hold hnew
  have hfst : ((retained old new).zip (retained new old)).map Prod.fst = retained old new :=
    List.map_fst_zip (Nat.le_of_eq hlen)
  have hsnd : ((retained old new).zip (retained new old)).map Prod.snd = retained new old :=
    List.map_snd_zip (Nat.le_of_eq hlen.symm)
  have hold' : (ids old).filter (isKept old new) =
      (retained old new).filter fun id => id ∉ moved old new := by
    rw [retained, List.filter_filter]
    apply List.filter_congr
    intro id hid
    rw [Bool.eq_iff_iff]
    simp [isKept_iff, hid, and_comm]
  have hnew' : (ids new).filter (isKept old new) =
      (retained new old).filter fun id => id ∉ moved old new := by
    rw [retained, List.filter_filter]
    apply List.filter_congr
    intro id hid
    rw [Bool.eq_iff_iff]
    simp [isKept_iff, hid, and_comm]
  have hnodup : (((retained old new).zip (retained new old)).map Prod.fst).Nodup := by
    rw [hfst]
    exact nodup_retained old new hold
  have hnodup' : (((retained old new).zip (retained new old)).map Prod.snd).Nodup := by
    rw [hsnd]
    exact nodup_retained new old hnew
  have hmem : ∀ p ∈ (retained old new).zip (retained new old),
      p.2 ∈ ((retained old new).zip (retained new old)).map Prod.fst := by
    intro p hp
    rw [hfst, mem_retained, and_comm, ← mem_retained]
    exact (List.of_mem_zip hp).2
  have h1 := filter_fst_of_pairs _ hnodup
  have h2 := filter_snd_of_pairs _ hnodup hnodup' hmem
  rw [hfst] at h1
  rw [hsnd] at h2
  rw [hold', hnew']
  exact h1.trans h2.symm

/-! ## Removals -/

theorem replays_removed {limit : Nat} (gone : List DocumentId) (held : Results)
    (hgone : gone.Nodup) (hheld : ∀ id ∈ gone, id ∈ ids held) (hroom : held.length ≤ limit) :
    Replays limit held (gone.map .removed) (held.filter fun entry => entry.1 ∉ gone) := by
  induction gone generalizing held with
  | nil => simpa using Replays.nil hroom
  | cons id rest ih =>
      rcases List.nodup_cons.mp hgone with ⟨hid, hrest⟩
      have hlegal : receive? held (.removed id) = some (discard id held) := by
        simp [receive?, hheld id List.mem_cons_self]
      have hheld' : ∀ other ∈ rest, other ∈ ids (discard id held) := by
        intro other hother
        rw [ids_discard, List.mem_filter]
        have hne : other ≠ id := fun h => hid (h ▸ hother)
        exact ⟨hheld other (List.mem_cons_of_mem _ hother), by simpa using hne⟩
      have hroom' : (discard id held).length ≤ limit :=
        Nat.le_trans (List.length_filter_le _ _) hroom
      have hfilter : (held.filter fun entry => entry.1 ∉ id :: rest) =
          (discard id held).filter fun entry => entry.1 ∉ rest := by
        rw [discard, List.filter_filter]
        apply List.filter_congr
        intro entry _
        rw [Bool.eq_iff_iff]
        simp [and_comm]
      rw [hfilter]
      exact .cons hroom hlegal (ih (discard id held) hrest hheld' hroom')

theorem replays_removals {limit : Nat} (old new held : Results) (hold : (ids old).Nodup)
    (hheld : Agrees held old) (hroom : held.length ≤ limit) :
    Replays limit held (removals old new)
      (held.filter fun entry => isKept old new entry.1) := by
  have hmem : ∀ id ∈ (ids old).filter fun id => !isKept old new id, id ∈ ids held := by
    intro id hid
    rw [hheld.ids_eq]
    exact (List.mem_filter.mp hid).1
  have hfilter : (held.filter fun entry => isKept old new entry.1) =
      held.filter fun entry => entry.1 ∉ (ids old).filter fun id => !isKept old new id := by
    apply List.filter_congr
    intro entry hentry
    have hid : entry.1 ∈ ids old := by
      rw [← hheld.ids_eq]
      exact List.mem_map_of_mem hentry
    simp [hid]
  rw [hfilter]
  exact replays_removed _ held (hold.filter _) hmem hroom

/-! ## Alterations -/

theorem document?_eq_some {results : Results} {entry : DocumentId × Json}
    (hnodup : (ids results).Nodup) (hentry : entry ∈ results) :
    document? results entry.1 = some entry.2 := by
  induction results with
  | nil => simp at hentry
  | cons first rest ih =>
      rcases List.nodup_cons.mp hnodup with ⟨hfirst, hrest⟩
      rcases List.mem_cons.mp hentry with rfl | hmem
      · simp [document?]
      · have hne : first.1 ≠ entry.1 := fun h => hfirst (h ▸ List.mem_map_of_mem hmem)
        simpa [document?, hne] using ih hrest hmem

theorem alterations_eq (old new : Results) :
    alterations old new =
      (new.filter fun entry => isKept old new entry.1).filterMap (alteration? old new) := by
  rw [alterations, List.filterMap_filter]
  apply List.filterMap_congr
  intro entry _
  by_cases h : isKept old new entry.1 = true <;> simp [alteration?, h]

theorem revise_middle (front back : Results) (id : DocumentId) (mine document : Json)
    (hnodup : (ids (front ++ (id, mine) :: back)).Nodup) :
    revise id document (front ++ (id, mine) :: back) = front ++ (id, document) :: back := by
  simp only [ids_append, ids_cons, List.nodup_append, List.nodup_cons] at hnodup
  rcases hnodup with ⟨-, ⟨hback, -⟩, hfront⟩
  have hkeep : ∀ side : Results, id ∉ ids side → revise id document side = side := by
    intro side hside
    have hne : ∀ entry ∈ side, entry.1 ≠ id :=
      fun entry hentry h => hside (h ▸ List.mem_map_of_mem hentry)
    rw [revise, List.map_congr_left (g := fun entry => entry) (by
      intro entry hentry
      simp [hne entry hentry]), List.map_id']
  have hfront' : id ∉ ids front := fun h => hfront id h id List.mem_cons_self rfl
  have hsplit : revise id document (front ++ (id, mine) :: back) =
      revise id document front ++ (id, document) :: revise id document back := by
    simp [revise]
  rw [hsplit, hkeep front hfront', hkeep back hback]

/-- How a kept document stands in the old and in the new results. -/
def Succeeds (old new : Results) (before after : DocumentId × Json) : Prop :=
  before.1 = after.1 ∧ isKept old new after.1 = true ∧
    document? old after.1 = some before.2

/-- The alterations of some kept documents, read by someone who has documents that
agree with the old ones behind others that are not concerned. -/
theorem replays_alteration {limit : Nat} (old new : Results) {before after : Results}
    (h : List.Forall₂ (Succeeds old new) before after) (front held : Results)
    (hheld : Agrees held before) (hnodup : (ids (front ++ held)).Nodup)
    (hroom : (front ++ held).length ≤ limit) :
    ∃ final, Replays limit (front ++ held) (after.filterMap (alteration? old new))
        (front ++ final) ∧ Agrees final after := by
  induction h generalizing front held with
  | nil =>
      cases hheld
      exact ⟨[], .nil hroom, .nil⟩
  | @cons x y _ _ hxy _ ih =>
      rcases hxy with ⟨hid, hkept, hdoc⟩
      cases hheld with
      | @cons mine _ back _ hmine hback =>
          obtain ⟨id, document⟩ := y
          obtain ⟨id', mine⟩ := mine
          obtain rfl : id' = id := hmine.1.trans hid
          have hassoc : ∀ d : Json,
              front ++ (id', d) :: back = (front ++ [(id', d)]) ++ back := by simp
          by_cases hsame : x.2.same document = true
          · -- The document is not reported, so what is held agrees with the new one too.
            have halter : alteration? old new (id', document) = none := by
              simp [alteration?, hkept, hdoc, hsame]
            rw [hassoc] at hnodup hroom
            obtain ⟨final, hreplay, hagree⟩ := ih _ back hback hnodup hroom
            refine ⟨(id', mine) :: final, ?_,
              .cons ⟨rfl, Json.same_trans hmine.2 hsame⟩ hagree⟩
            simpa [List.filterMap_cons, halter] using hreplay
          · have halter : alteration? old new (id', document) =
                some (.changed id' document) := by
              simp [alteration?, hkept, hdoc, hsame]
            have hlegal : receive? (front ++ (id', mine) :: back) (.changed id' document) =
                some (front ++ (id', document) :: back) := by
              simp [receive?, revise_middle front back id' mine document hnodup]
            have hids : ids (front ++ (id', document) :: back) =
                ids (front ++ (id', mine) :: back) := by simp
            have hnodup' := hids ▸ hnodup
            have hroom' : (front ++ (id', document) :: back).length ≤ limit := by
              simpa using hroom
            rw [hassoc] at hnodup' hroom'
            obtain ⟨final, hreplay, hagree⟩ := ih _ back hback hnodup' hroom'
            refine ⟨(id', document) :: final, ?_, .cons ⟨rfl, Json.same_refl _⟩ hagree⟩
            rw [List.filterMap_cons_some halter]
            exact .cons hroom hlegal (by simpa using hreplay)

theorem forall₂_succeeds (old new : Results) (hold : (ids old).Nodup)
    (hnew : (ids new).Nodup) :
    List.Forall₂ (Succeeds old new) (old.filter fun entry => isKept old new entry.1)
      (new.filter fun entry => isKept old new entry.1) := by
  have hids : ids (old.filter fun entry => isKept old new entry.1) =
      ids (new.filter fun entry => isKept old new entry.1) := by
    rw [ids_filter, ids_filter, filter_isKept_eq old new hold hnew]
  have hbefore : ∀ entry ∈ old.filter (fun entry => isKept old new entry.1), entry ∈ old :=
    fun entry hentry => (List.mem_filter.mp hentry).1
  have hafter : ∀ entry ∈ new.filter (fun entry => isKept old new entry.1),
      isKept old new entry.1 = true :=
    fun entry hentry => (List.mem_filter.mp hentry).2
  generalize old.filter (fun entry => isKept old new entry.1) = before at hids hbefore ⊢
  generalize new.filter (fun entry => isKept old new entry.1) = after at hids hafter ⊢
  induction before generalizing after with
  | nil =>
      cases after with
      | nil => exact .nil
      | cons => simp at hids
  | cons x xs ih =>
      cases after with
      | nil => simp at hids
      | cons y ys =>
          simp only [ids_cons, List.cons.injEq] at hids
          rcases hids with ⟨hxy, hrest⟩
          have hdoc := document?_eq_some hold (hbefore x List.mem_cons_self)
          refine .cons ⟨hxy, hafter y List.mem_cons_self, hxy ▸ hdoc⟩ (ih ?_ ys hrest ?_)
          · exact fun entry h => hbefore entry (List.mem_cons_of_mem _ h)
          · exact fun entry h => hafter entry (List.mem_cons_of_mem _ h)

/-! ## Additions -/

theorem placeBefore?_middle (front back : Results) (next : DocumentId) (document : Json)
    (entry : DocumentId × Json) (hfront : next ∉ ids front) :
    placeBefore? next entry (front ++ (next, document) :: back) =
      some (front ++ entry :: (next, document) :: back) := by
  induction front with
  | nil => simp [placeBefore?_cons]
  | cons first rest ih =>
      simp only [ids_cons, List.mem_cons, not_or] at hfront
      rcases hfront with ⟨hne, hrest⟩
      rw [List.cons_append, placeBefore?_cons, if_neg (Ne.symm hne), ih hrest]
      rfl

/-- An entry placed before the first one of what follows, or at the end if nothing
follows, goes where that begins. -/
theorem place?_between (front back todo : Results) (entry : DocumentId × Json)
    (hback : Agrees back todo) (hnodup : (ids (front ++ back)).Nodup) :
    place? (todo.head?.map Prod.fst) entry (front ++ back) = some (front ++ entry :: back) := by
  cases hback with
  | nil => simp [place?]
  | @cons x y back _ hxy _ =>
      obtain ⟨id, document⟩ := x
      have hfront : id ∉ ids front := by
        rw [ids_append, List.nodup_append] at hnodup
        exact fun h => hnodup.2.2 id h id List.mem_cons_self rfl
      have hid : y.1 = id := hxy.1.symm
      simpa [place?, hid] using placeBefore?_middle front back id document entry hfront

/-- The additions of a list, read by someone who has its kept documents behind others
that are not concerned. The last one is read first, so the documents behind each one
are all there when its turn comes. -/
theorem replays_additions {limit : Nat} (keep : DocumentId → Bool) (todo front held : Results)
    (hheld : Agrees held (todo.filter fun entry => keep entry.1))
    (hnodup : (ids (front ++ todo)).Nodup) (hroom : (front ++ todo).length ≤ limit) :
    ∃ final, Replays limit (front ++ held) (additions keep todo) (front ++ final) ∧
      Agrees final todo := by
  induction todo generalizing front held with
  | nil =>
      cases hheld
      exact ⟨[], .nil hroom, .nil⟩
  | cons first rest ih =>
      obtain ⟨id, document⟩ := first
      rw [additions_cons]
      by_cases hkeep : keep id = true
      · rw [List.filter_cons_of_pos (by simpa using hkeep)] at hheld
        cases hheld with
        | @cons mine _ back _ hmine hback =>
            have hids :
                ids ((front ++ [mine]) ++ rest) = ids (front ++ (id, document) :: rest) := by
              simp [hmine.1]
            have hroom' : ((front ++ [mine]) ++ rest).length ≤ limit := by
              simpa [Nat.add_comm 1] using hroom
            obtain ⟨final, hreplay, hagree⟩ := ih _ back hback (hids ▸ hnodup) hroom'
            refine ⟨mine :: final, ?_, .cons hmine hagree⟩
            simpa [hkeep] using hreplay
      · rw [List.filter_cons_of_neg (by simpa using hkeep)] at hheld
        have hsub : (ids (front ++ rest)).Nodup := by
          refine hnodup.sublist ?_
          simp only [ids_append, ids_cons]
          exact List.Sublist.append_left (List.sublist_cons_self _ _) _
        have hroom' : (front ++ rest).length ≤ limit := by
          simp only [List.length_append, List.length_cons] at hroom ⊢
          omega
        obtain ⟨final, hreplay, hagree⟩ := ih front held hheld hsub hroom'
        have hids : ids (front ++ final) = ids (front ++ rest) := by
          simp [hagree.ids_eq]
        have hnew : id ∉ ids (front ++ final) := by
          rw [hids]
          simp only [ids_append, ids_cons, List.nodup_append, List.nodup_cons] at hnodup
          rcases hnodup with ⟨-, ⟨hrest, -⟩, hfront⟩
          intro h
          rcases List.mem_append.mp (by simpa using h) with h | h
          · exact hfront id h id List.mem_cons_self rfl
          · exact hrest h
        have hlegal : receive? (front ++ final)
            (.added id document (rest.head?.map Prod.fst)) =
              some (front ++ (id, document) :: final) := by
          rw [receive?, if_neg hnew]
          exact place?_between front final rest (id, document) hagree (hids ▸ hsub)
        refine ⟨(id, document) :: final, ?_, .cons ⟨rfl, Json.same_refl _⟩ hagree⟩
        have hroom'' : (front ++ (id, document) :: final).length ≤ limit := by
          have := hagree.length_eq
          simp only [List.length_append, List.length_cons] at hroom ⊢
          omega
        rw [if_neg hkeep]
        exact hreplay.append (.single hreplay.length_le hroom'' hlegal)

/-! ## All changes -/

/-- The changes between two lists of results lead a strict reader from the old
results to the new ones, and the reader never holds more than the limit. -/
theorem replays_changes {limit : Nat} (old new held : Results) (hold : (ids old).Nodup)
    (hnew : (ids new).Nodup) (hheld : Agrees held old) (hroom : old.length ≤ limit)
    (hroom' : new.length ≤ limit) :
    ∃ final, Replays limit held (changes old new) final ∧ Agrees final new := by
  have hroomHeld : held.length ≤ limit := by rw [hheld.length_eq]; exact hroom
  have hremove := replays_removals old new held hold hheld hroomHeld
  have hkept := hheld.filter (isKept old new)
  have hkeptNodup : (ids (held.filter fun entry => isKept old new entry.1)).Nodup := by
    rw [ids_filter, hheld.ids_eq]
    exact hold.filter _
  obtain ⟨altered, halter, haltered⟩ := replays_alteration old new
    (forall₂_succeeds old new hold hnew) [] _ hkept hkeptNodup hremove.length_le
  obtain ⟨final, hadd, hfinal⟩ := replays_additions (isKept old new) new [] altered haltered
    hnew hroom'
  refine ⟨final, ?_, hfinal⟩
  rw [changes, alterations_eq]
  exact (hremove.append halter).append hadd

/-- The first changes of a feed lead a strict reader of nothing to the results. -/
theorem replays_first {limit : Nat} (results front : Results)
    (hnodup : (ids (front ++ results)).Nodup) (hroom : (front ++ results).length ≤ limit) :
    Replays limit front (results.map fun result => .added result.1 result.2 none)
      (front ++ results) := by
  induction results generalizing front with
  | nil => simpa using Replays.nil (by simpa using hroom)
  | cons first rest ih =>
      have hassoc : front ++ first :: rest = (front ++ [first]) ++ rest := by simp
      have hnew : first.1 ∉ ids front := by
        rw [ids_append, List.nodup_append] at hnodup
        exact fun h => hnodup.2.2 first.1 h first.1 List.mem_cons_self rfl
      have hlegal : receive? front (.added first.1 first.2 none) =
          some (front ++ [first]) := by
        simp [receive?, hnew, place?]
      have hroomFront : front.length ≤ limit := by
        simp only [List.length_append] at hroom
        omega
      rw [hassoc] at hnodup hroom ⊢
      exact .cons hroomFront hlegal (ih (front ++ [first]) hnodup hroom)

end Results

end LiveDocuments
