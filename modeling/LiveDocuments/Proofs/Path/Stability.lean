import LiveDocuments.Proofs.Path.RoundTrip

/-!
# Reading a path a second time

The components read from a path can be written and read again. Not all of them come
back: an id that was read from between single quotes may hold a double quote, where
the written object id ends, and a dot at the end of a path turns into a slash when it stands
behind the first closing parenthesis of the property, which means nothing when it is
read. `Components.settled` is what the second reading gives instead. It gives the same
from then on.
-/

namespace LiveDocuments

namespace DocumentId

/-- No double quote ends the written form too early. -/
def IsUncut : DocumentId → Prop
  | plain _ => True
  | objectId hex => '"' ∉ hex.toList

/-- What the written form of an id is read as. -/
def settled : DocumentId → DocumentId
  | plain text => plain text
  | objectId hex => objectId (String.ofList (hex.toList.takeWhile (· != '"')))

theorem ofText_toText_eq_settled (id : DocumentId) : ofText id.toText = id.settled := by
  cases id with
  | plain text => exact ofText_toText_plain text
  | objectId hex => exact ofText_toText_objectId hex

theorem settled_eq_self_iff (id : DocumentId) : id.settled = id ↔ id.IsUncut := by
  cases id with
  | plain text => exact iff_of_true rfl trivial
  | objectId hex =>
      rw [settled, objectId.injEq, IsUncut, ← Text.takeWhile_bne_eq_self_iff, ← String.toList_inj,
        String.toList_ofList]

theorem isUncut_settled (id : DocumentId) : id.settled.IsUncut := by
  cases id with
  | plain text => trivial
  | objectId hex =>
      intro hmem
      rw [String.toList_ofList] at hmem
      exact absurd (List.mem_takeWhile_imp hmem) (by simp)

end DocumentId

namespace Components

/-! ## Properties read twice -/

/-- The text without a slash at its end. -/
def withoutLastSlash (cs : List Char) : List Char :=
  if cs.getLast? = some '/' then cs.dropLast else cs

theorem withoutLastSlash_concat (cs : List Char) : withoutLastSlash (cs ++ ['/']) = cs := by
  simp [withoutLastSlash]

theorem withoutLastSlash_eq_self_iff {cs : List Char} :
    withoutLastSlash cs = cs ↔ cs.getLast? ≠ some '/' := by
  constructor
  · intro h hlast
    rw [withoutLastSlash, if_pos hlast] at h
    have hlength := congrArg List.length h
    have hne : cs ≠ [] := by
      rintro rfl
      cases hlast
    have := List.length_pos_of_ne_nil hne
    rw [List.length_dropLast] at hlength
    omega
  · exact fun h => if_neg h

/-- A property made of segments is one that reading can make, or it ends in the slash that
was put in. -/
theorem restoreSeparator_ends {cs : List Char} (h : '/' ∉ cs) :
    (IsProperty (restoreSeparator cs) ∧ (restoreSeparator cs).getLast? ≠ some '/') ∨
      ∃ front, '/' ∉ front ∧ ')' ∉ front ∧
        restoreSeparator cs = (front ++ [')']) ++ ['/'] := by
  rcases restoreSeparator_cases cs with
    ⟨hdot, hkept⟩ | ⟨front, rest, hfront, rfl, hrestored⟩
  · rw [hkept]
    exact .inl ⟨.joined h hdot, fun hlast => h (List.mem_of_getLast? hlast)⟩
  · simp only [List.mem_append, List.mem_cons, not_or] at h
    obtain ⟨hslash, -, -, hrest⟩ := h
    rw [hrestored]
    by_cases hne : rest = []
    · subst hne
      exact .inr ⟨front, hslash, hfront, by simp⟩
    · refine .inl ⟨.separated hfront hslash hrest hne, fun hlast => ?_⟩
      rw [List.getLast?_append_of_ne_nil _ (by simp), List.getLast?_cons_cons,
        List.getLast?_cons_of_ne_nil hne] at hlast
      exact hrest (List.mem_of_getLast? hlast)

/-- A property that was read is read again without the slash at its end. -/
theorem restoreSeparator_reread {cs : List Char} (h : '/' ∉ cs) :
    restoreSeparator (Text.join '.' (Text.segments '/' (restoreSeparator cs))) =
      withoutLastSlash (restoreSeparator cs) := by
  rcases restoreSeparator_ends h with ⟨hproperty, hlast⟩ | ⟨front, hslash, hparen, hrestored⟩
  · rw [restoreSeparator_join_segments_iff.mpr hproperty, withoutLastSlash_eq_self_iff.mpr hlast]
  · have hclean : '/' ∉ front ++ [')'] := by simp [hslash]
    rw [hrestored, Text.segments_concat, Text.join_segments_of_not_mem '.' hclean,
      restoreSeparator_no_dot hparen (by simp), withoutLastSlash_concat]

theorem getLast?_reread {cs : List Char} (h : '/' ∉ cs) :
    (withoutLastSlash (restoreSeparator cs)).getLast? ≠ some '/' := by
  rcases restoreSeparator_ends h with ⟨-, hlast⟩ | ⟨front, hslash, -, hrestored⟩
  · rwa [withoutLastSlash_eq_self_iff.mpr hlast]
  · rw [hrestored, withoutLastSlash_concat, List.getLast?_concat]
    decide

/-! ## Components read twice -/

/-- What the path of components is read as, if the components were read from a path. -/
def settled (c : Components) : Components :=
  ⟨c.collection, c.documentId.map DocumentId.settled,
    String.ofList (withoutLastSlash c.property.toList)⟩

/-- No double quote ends the id too early. -/
def HasUncutId (c : Components) : Prop := ∀ id ∈ c.documentId, id.IsUncut

theorem map_settled_eq_self_iff (c : Components) :
    c.documentId.map DocumentId.settled = c.documentId ↔ c.HasUncutId := by
  unfold HasUncutId
  cases c.documentId with
  | none => simp
  | some id => simp [DocumentId.settled_eq_self_iff]

theorem settled_eq_self_iff (c : Components) :
    c.settled = c ↔ c.HasUncutId ∧ c.property.toList.getLast? ≠ some '/' := by
  rw [← map_settled_eq_self_iff, ← withoutLastSlash_eq_self_iff, settled]
  constructor
  · intro h
    obtain ⟨-, hid, hproperty⟩ := (Components.mk.injEq ..).mp h
    rw [← String.toList_inj, String.toList_ofList] at hproperty
    exact ⟨hid, hproperty⟩
  · rintro ⟨hid, hproperty⟩
    rw [hid, hproperty, String.ofList_toList]

theorem ofPath_eq_ok_iff {path : String} {c : Components} :
    ofPath path = .ok c ↔ parse path = .ok c := by
  unfold ofPath
  split <;> simp_all

theorem exists_property_of_parse {path : String} {c : Components} (h : parse path = .ok c) :
    ∃ cs, '/' ∉ cs ∧ c.property.toList = restoreSeparator cs := by
  obtain ⟨_, rest, -, hsegments⟩ := ofSegments_of_ofPath (ofPath_eq_ok_iff.mpr h)
  refine ⟨Text.join '.' (Text.segments '/' rest).tail, ?_, ?_⟩
  · exact Text.not_mem_join (by decide) fun piece hpiece =>
      Text.not_mem_of_mem_segments (List.mem_of_mem_tail hpiece)
  · rw [property_ofSegments hsegments, String.toList_ofList]

/-- The collection and the id that were read are read again with any property. -/
theorem parse_toPath_with {path : String} {c : Components} (h : parse path = .ok c)
    (property : String) :
    parse { c with property := property }.toPath =
      .ok ⟨c.collection, c.documentId.map DocumentId.settled,
        String.ofList (restoreSeparator
          (Text.join '.' (Text.segments '/' property.toList)))⟩ := by
  have hpath := ofPath_eq_ok_iff.mpr h
  have hslash : '/' ∉ c.segment := (slash_not_mem_segment_iff c).mpr
    ⟨slash_not_mem_collection hpath, slash_not_mem_name hpath⟩
  have hne : c.segment ≠ [] := by
    intro hnil
    obtain ⟨hcollection, hid⟩ := (segment_eq_nil_iff c).mp hnil
    exact (named_of_ofPath hpath).elim (absurd hcollection) (absurd hid)
  have hparen : '(' ∉ c.collection.toList := paren_not_mem_collection hpath
  have hread : parse { c with property := property }.toPath = _ := parse_toPath hparen hslash hne
  simpa only [DocumentId.ofText_toText_eq_settled] using hread

/-- The path of components that were read is read as what they settle to. -/
theorem parse_toPath_of_parse {path : String} {c : Components} (h : parse path = .ok c) :
    parse c.toPath = .ok c.settled := by
  obtain ⟨cs, hslash, hproperty⟩ := exists_property_of_parse h
  have hread := parse_toPath_with h c.property
  rw [hproperty, restoreSeparator_reread hslash, ← hproperty] at hread
  exact hread

theorem parse_documentPath_of_parse {path : String} {c : Components} (h : parse path = .ok c) :
    parse c.documentPath = .ok { c.settled with property := "" } := parse_toPath_with h ""

theorem settled_settled_of_parse {path : String} {c : Components} (h : parse path = .ok c) :
    c.settled.settled = c.settled := by
  obtain ⟨cs, hslash, hproperty⟩ := exists_property_of_parse h
  refine (settled_eq_self_iff c.settled).mpr ⟨?_, ?_⟩
  · intro id hid
    obtain ⟨first, -, rfl⟩ := Option.map_eq_some_iff.mp hid
    exact first.isUncut_settled
  · rw [settled, String.toList_ofList, hproperty]
    exact getLast?_reread hslash

/-- The path written for components that were read from a text is always read again. It gives the
same components exactly if the id holds no double quote that ends an object id and the property
does not end in a slash; the path of the document alone gives the same collection and id exactly
if the id holds no such quote. What the second reading gives comes back from then on. -/
theorem parsed_stable_iff (path : String) (c : Components) (h : parse path = .ok c) :
    (parse c.toPath = .ok c ↔ c.HasUncutId ∧ c.property.toList.getLast? ≠ some '/') ∧
    (parse c.documentPath = .ok { c with property := "" } ↔ c.HasUncutId) ∧
    parse c.toPath = .ok c.settled ∧ parse c.settled.toPath = .ok c.settled := by
  have hread := parse_toPath_of_parse h
  have hagain := parse_toPath_of_parse hread
  rw [settled_settled_of_parse h] at hagain
  refine ⟨?_, ?_, hread, hagain⟩
  · rw [hread, Except.ok.injEq, settled_eq_self_iff]
  · rw [parse_documentPath_of_parse h, Except.ok.injEq, ← map_settled_eq_self_iff]
    simp [settled]

/-- A lookup of a document with an object id comes back, also when it was spelled in
another way. -/
theorem parsed_stable_lookup :
    ∃ c, parse "//Orders(ObjectId('5f1d'))//?A(k)/b//c/" = .ok c ∧ c.settled = c ∧
      parse c.toPath = .ok c ∧ parse c.documentPath = .ok { c with property := "" } := by
  have hread : parse "//Orders(ObjectId('5f1d'))//?A(k)/b//c/" =
      .ok ⟨"Orders", some (.objectId "5f1d"), "?A(k)/b.c"⟩ := by decide +kernel
  have hid : HasUncutId ⟨"Orders", some (.objectId "5f1d"), "?A(k)/b.c"⟩ := by
    rintro id ⟨⟩
    exact (by decide : '"' ∉ "5f1d".toList)
  have hstable := parsed_stable_iff _ _ hread
  exact ⟨_, hread, (settled_eq_self_iff _).mpr ⟨hid, by decide⟩,
    hstable.1.mpr ⟨hid, by decide⟩, hstable.2.1.mpr hid⟩

/-- An object id that holds a double quote can be read from single quotes, and is cut when
its path is read. -/
theorem quoted_objectId_unstable :
    ∃ c d, parse "/C(ObjectID('a\"b'))" = .ok c ∧ c.documentId = some (.objectId "a\"b") ∧
      parse c.toPath = .ok d ∧ parse c.documentPath = .ok d ∧
      d.documentId = some (.objectId "a") :=
  ⟨⟨"C", some (.objectId "a\"b"), ""⟩, ⟨"C", some (.objectId "a"), ""⟩, by decide +kernel⟩

/-- A dot at the end of a path is lost if it stands behind the first parenthesis. -/
example : parse "/C/a)." = .ok ⟨"C", none, "a)/"⟩ ∧
    parse (toPath ⟨"C", none, "a)/"⟩) = .ok ⟨"C", none, "a)"⟩ := by decide +kernel

end Components

end LiveDocuments
