import Mathlib.Data.List.Induction
import Mathlib.Data.List.Nodup

/-!
# Entries in order of first appearance

Filters are grouped by property and sort directions are kept by property, one request after
the other: a property that is new comes last, one that is there keeps its place, and what is
kept for it changes. Whatever is kept, in the end the properties stand in the order of their
first appearance, each with what all its requests together make (`Entries.foldl_amend`).
-/

namespace LiveDocuments

/-! ## Each member once -/

section EraseDups

variable {κ : Type} [DecidableEq κ]

theorem eraseDups_concat (keys : List κ) (key : κ) :
    (keys ++ [key]).eraseDups =
      if key ∈ keys then keys.eraseDups else keys.eraseDups ++ [key] := by
  rw [List.eraseDups_append]
  split
  · next hmem => simp [List.removeAll, hmem]
  · next hnew => simp [List.removeAll, hnew, List.eraseDups_cons]

theorem nodup_eraseDups (keys : List κ) : keys.eraseDups.Nodup := by
  induction keys using List.reverseRecOn with
  | nil => exact List.nodup_nil
  | append_singleton front key ih =>
      rw [eraseDups_concat]
      split
      · exact ih
      · next hnew =>
          have hkey : key ∉ front.eraseDups := mt List.mem_eraseDups.mp hnew
          exact List.nodup_append.mpr ⟨ih, List.nodup_singleton key, fun other hother _ hlast =>
            List.mem_singleton.mp hlast ▸ ne_of_mem_of_not_mem hother hkey⟩

end EraseDups

namespace Entries

variable {κ ν α : Type} [DecidableEq κ]

/-- The entries with what is kept under a key changed: in its place, or at the end if the key
is new. -/
def amend (key : κ) (change : Option ν → ν) : List (κ × ν) → List (κ × ν)
  | [] => [(key, change none)]
  | (k, v) :: rest =>
      if k = key then (k, change (some v)) :: rest else (k, v) :: amend key change rest

theorem amend_cons (key k : κ) (change : Option ν → ν) (v : ν) (rest : List (κ × ν)) :
    amend key change ((k, v) :: rest) =
      if k = key then (k, change (some v)) :: rest else (k, v) :: amend key change rest := rfl

section

variable {key : κ} {keys : List κ} (change : Option ν → ν) (value : κ → ν)

theorem amend_of_not_mem (hnew : key ∉ keys) :
    amend key change (keys.map fun k => (k, value k)) =
      (keys.map fun k => (k, value k)) ++ [(key, change none)] := by
  induction keys with
  | nil => rfl
  | cons k rest ih =>
      obtain ⟨hk, hrest⟩ := not_or.mp (mt List.mem_cons.mpr hnew)
      rw [List.map_cons, amend_cons, if_neg (Ne.symm hk), ih hrest, List.cons_append]

theorem amend_of_mem (hnodup : keys.Nodup) (hmem : key ∈ keys) :
    amend key change (keys.map fun k => (k, value k)) =
      keys.map fun k => (k, if k = key then change (some (value k)) else value k) := by
  induction keys with
  | nil => exact absurd hmem List.not_mem_nil
  | cons k rest ih =>
      obtain ⟨hk, hrest⟩ := List.nodup_cons.mp hnodup
      rw [List.map_cons, amend_cons, List.map_cons]
      by_cases heq : k = key
      · -- behind its only entry the key does not occur
        subst heq
        have hkept : ∀ other ∈ rest, (other, value other) =
            (other, if other = k then change (some (value other)) else value other) :=
          fun other hother => by rw [if_neg (ne_of_mem_of_not_mem hother hk)]
        rw [if_pos rfl, if_pos rfl, List.map_congr_left hkept]
      · rw [if_neg heq, if_neg heq, ih hrest ((List.mem_cons.mp hmem).resolve_left (Ne.symm heq))]

end

/-- Let `value` be what all requests together make for a key, where one more request changes what
is kept for its own key. Then the entries are the keys in the order of their first appearance,
each with that value. -/
theorem foldl_amend (key : α → κ) (change : α → Option ν → ν) (value : List α → κ → ν)
    (hvalue : ∀ requests request k, value (requests ++ [request]) k =
      if k = key request then
        change request (if k ∈ requests.map key then some (value requests k) else none)
      else value requests k)
    (requests : List α) :
    requests.foldl (fun entries request => amend (key request) (change request) entries) [] =
      (requests.map key).eraseDups.map fun k => (k, value requests k) := by
  induction requests using List.reverseRecOn with
  | nil => rfl
  | append_singleton front request ih =>
      rw [List.foldl_concat, ih, List.map_append, List.map_singleton, eraseDups_concat]
      by_cases hmem : key request ∈ front.map key
      · rw [if_pos hmem, amend_of_mem _ _ (nodup_eraseDups _) (List.mem_eraseDups.mpr hmem)]
        refine List.map_congr_left fun k hk => ?_
        rw [hvalue, if_pos (List.mem_eraseDups.mp hk)]
      · rw [if_neg hmem, amend_of_not_mem _ _ (mt List.mem_eraseDups.mp hmem), List.map_append,
          List.map_singleton, hvalue front request (key request), if_pos rfl, if_neg hmem]
        congr 1
        refine List.map_congr_left fun k hk => ?_
        have hother : k ≠ key request :=
          ne_of_mem_of_not_mem (List.mem_eraseDups.mp hk) hmem
        rw [hvalue, if_neg hother]

end Entries

end LiveDocuments
