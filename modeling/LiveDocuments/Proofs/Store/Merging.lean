import LiveDocuments.Proofs.Selector.Conditions
import LiveDocuments.Proofs.Store.Shelves

/-!
# Merging fields again

An update sets fields one after the other. A key that is there keeps its place, so the same
fields can be set again without any change (`Json.setAll_setAll`), even if some of them are
given twice and take other values on the way. For documents it follows that an update which
was just done changes nothing when it is done again (`Store.merge_merge`).
-/

namespace LiveDocuments

/-! ## Fields set again -/

namespace Json

/-- Fields set one after the other. -/
def setAll (fields target : List (String × Json)) : List (String × Json) :=
  fields.foldl (fun target field => insert field.1 field.2 target) target

theorem setAll_cons (key : String) (value : Json) (rest target : List (String × Json)) :
    setAll ((key, value) :: rest) target = setAll rest (insert key value target) := rfl

theorem mem_keys_insert (key other : String) (value : Json) (fields : List (String × Json)) :
    other ∈ keys (insert key value fields) ↔ other = key ∨ other ∈ keys fields := by
  rw [keys_insert]
  split
  · next h => exact ⟨.inr, fun hor => hor.elim (fun heq => heq ▸ h) id⟩
  · simp [or_comm]

theorem mem_keys_of_lookup {key : String} {value : Json} {fields : List (String × Json)}
    (h : lookup key fields = some value) : key ∈ keys fields := by
  induction fields with
  | nil => cases h
  | cons field rest ih =>
      obtain ⟨k, v⟩ := field
      rw [lookup_cons] at h
      split at h
      · next hk => exact hk ▸ List.mem_cons_self
      · exact List.mem_cons_of_mem k (ih h)

theorem insert_insert (key : String) (value other : Json) (fields : List (String × Json)) :
    insert key value (insert key other fields) = insert key value fields := by
  induction fields with
  | nil => simp [insert_cons]
  | cons field rest ih =>
      obtain ⟨k, v⟩ := field
      by_cases hk : k = key <;> simp [insert_cons, hk, ih]

/-- A key that is there keeps its place, so another one may be set before or after it. -/
theorem insert_comm {key other : String} (hne : key ≠ other) {fields : List (String × Json)}
    (hkey : key ∈ keys fields) (value otherValue : Json) :
    insert other otherValue (insert key value fields) =
      insert key value (insert other otherValue fields) := by
  induction fields with
  | nil => exact absurd hkey List.not_mem_nil
  | cons field rest ih =>
      obtain ⟨k, v⟩ := field
      by_cases hk : k = key
      · subst hk
        simp [insert_cons, hne]
      · have hrest : key ∈ keys rest := (List.mem_cons.mp hkey).resolve_left (Ne.symm hk)
        by_cases ho : k = other
        · subst ho
          simp [insert_cons, hk]
        · simp [insert_cons, hk, ho, ih hrest]

theorem insert_of_lookup {key : String} {value : Json} {fields : List (String × Json)}
    (h : lookup key fields = some value) : insert key value fields = fields := by
  induction fields with
  | nil => cases h
  | cons field rest ih =>
      obtain ⟨k, v⟩ := field
      rw [lookup_cons] at h
      rw [insert_cons]
      split at h
      · next hk => rw [if_pos hk, Option.some.inj h]
      · next hk => rw [if_neg hk, ih h]

theorem setAll_insert {key : String} {fields target : List (String × Json)}
    (hfields : key ∈ keys fields) (htarget : key ∈ keys target) (value : Json) :
    setAll fields (insert key value target) = setAll fields target := by
  induction fields generalizing target with
  | nil => exact absurd hfields List.not_mem_nil
  | cons field rest ih =>
      obtain ⟨k, v⟩ := field
      rw [setAll_cons, setAll_cons]
      by_cases hk : k = key
      · rw [hk, insert_insert]
      · have hrest : key ∈ keys rest := (List.mem_cons.mp hfields).resolve_left (Ne.symm hk)
        rw [insert_comm (Ne.symm hk) htarget]
        exact ih hrest ((mem_keys_insert k key v target).mpr (.inr htarget))

/-- Setting fields changes nothing if the last value given for each of them is there. -/
theorem setAll_eq_self {fields target : List (String × Json)}
    (h : ∀ key value, lookup key fields.reverse = some value → lookup key target = some value) :
    setAll fields target = target := by
  induction fields with
  | nil => rfl
  | cons field rest ih =>
      obtain ⟨k, v⟩ := field
      have hback : ∀ key, lookup key ((k, v) :: rest).reverse =
          (lookup key rest.reverse).or (lookup key [(k, v)]) := by
        intro key
        rw [List.reverse_cons, Store.lookup_append]
      have hrest : setAll rest target = target := by
        refine ih fun key value hvalue => h key value ?_
        rw [hback, hvalue, Option.some_or]
      rw [setAll_cons]
      cases hlater : lookup k rest.reverse with
      | some value =>
          have hkey : k ∈ keys rest := by
            have hmem := mem_keys_of_lookup hlater
            rwa [keys, List.map_reverse, List.mem_reverse] at hmem
          have htarget : lookup k target = some value := by
            refine h k value ?_
            rw [hback, hlater, Option.some_or]
          rw [setAll_insert hkey (mem_keys_of_lookup htarget), hrest]
      | none =>
          have htarget : lookup k target = some v := by
            refine h k v ?_
            rw [hback, hlater, Option.none_or, lookup_cons, if_pos rfl]
          rw [insert_of_lookup htarget, hrest]

theorem setAll_setAll (fields target : List (String × Json)) :
    setAll fields (setAll fields target) = setAll fields target := by
  refine setAll_eq_self fun key value hvalue => ?_
  rw [setAll, Store.lookup_foldl_insert_eq, hvalue, Option.some_or]

end Json

namespace Store

theorem merge_merge (document fields : Json) :
    merge (merge document fields) fields = merge document fields := by
  cases document with
  | object target =>
      cases fields with
      | object fields => exact congrArg Json.object (Json.setAll_setAll _ target)
      | _ => rfl
  | _ => rfl

theorem merge_eq_self {document fields : Json}
    (h : ∀ key value, fields.get? key = some value → key = idKey) :
    merge document fields = document := by
  unfold merge
  split
  · next target fields =>
      have hnone : (fields.filter fun field => field.1 ≠ idKey) = [] := by
        rw [List.filter_eq_nil_iff]
        rintro ⟨key, value⟩ hmem
        obtain ⟨first, hfirst, -⟩ := Json.exists_lookup_of_mem hmem
        simp [h key first hfirst]
      rw [hnone, List.foldl_nil]
  · rfl

end Store

end LiveDocuments
