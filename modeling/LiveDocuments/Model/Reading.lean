import LiveDocuments.Model.Basic

/-!
# Reading values

A value is read by path: the path resolves to a document and a property of it. If
the property path is a lookup such as `?Customers(customerId)/name`, the id held
by `customerId` in the document names a document of the other collection, and
reading goes on there with the rest of the path. A path that is a lookup itself
starts from the document of its context.

Where a lookup leads is decided by data, so no measure of the path bounds how
often reading goes on. `readStep` is one leg of the way. `read?` follows the legs
to their end and has no value if they never end.
-/

namespace LiveDocuments

namespace Model

/-- The outcome of one leg: a result, or where to go on. -/
inductive ReadStep where
  | finished (result : Except BindingError (Option Json))
  | follow (path : String) (context : Context)

/-- The first document named by components, none if they name a whole
collection. -/
def readDocument (m : Model) (c : Components) : Except BindingError (Option Json) × Model :=
  if c.documentId.isNone then (.ok none, m)
  else
    match m.query c [] [] none with
    | (.error e, m) => (.error e, m)
    | (.ok cursor, m) =>
        match m.first cursor with
        | (.error e, m) => (.error (.store e), m)
        | (.ok document, m) => (.ok document, m)

/-- A lookup from a document: on to the document whose id stands under the key. -/
def lookup (m : Model) (document : Json) (path : String) : ReadStep × Model :=
  match Components.ofPath path with
  | .error e => (.finished (.error e), m)
  | .ok c =>
      match c.documentId with
      | none => (.finished (.ok none), m)
      | some key =>
          match (valueAt document key.name).bind DocumentId.ofJson? with
          | none => (.finished (.ok none), m)
          | some id =>
              let (context, m) := m.contextFor (Components.pathOf c.collection id)
              (.follow c.property context, m)

/-- The property of a document that a property path names, or a lookup from
there. -/
def readProperty (m : Model) (document : Json) (c : Components) : ReadStep × Model :=
  if c.property = "" then (.finished (.ok (some document)), m)
  else if c.hasLookup then m.lookup document c.property
  else (.finished (.ok (valueAt document c.property)), m)

/-- A lookup from the document that a context belongs to. -/
def readFromOwner (m : Model) (path : String) (context : Context) : ReadStep × Model :=
  match (Components.ofPath context.path).bind fun c => Components.ofPath c.documentPath with
  | .error e => (.finished (.error e), m)
  | .ok owner =>
      match m.readDocument owner with
      | (.ok (some document), m) => m.lookup document path
      | (result, m) => (.finished result, m)

/-- One leg of reading a path under a context. -/
def readStep (m : Model) (path : String) (context : Option Context) : ReadStep × Model :=
  if path.toList.head? = some '?' then
    match context with
    | none => (.finished (.ok none), m)
    | some context => m.readFromOwner path context
  else
    match m.resolve path context with
    | none => (.finished (.ok none), m)
    | some resolved =>
        match Components.ofPath resolved with
        | .error e => (.finished (.error e), m)
        | .ok c =>
            match m.readDocument c with
            | (.ok (some document), m) => m.readProperty document c
            | (result, m) => (.finished result, m)

/-- What reading came to: the result, how many legs it took, and the model
afterwards. -/
structure Reading where
  result : Except BindingError (Option Json)
  legs : Nat
  model : Model

/-- Reading followed for so many legs at most; nothing if it is not over then. -/
def readWithin : Nat → Model → String → Option Context → Option Reading
  | 0, _, _, _ => none
  | limit + 1, m, path, context =>
      match m.readStep path context with
      | (.finished result, m) => some ⟨result, 1, m⟩
      | (.follow path context, m) =>
          (readWithin limit m path (some context)).map fun r => { r with legs := r.legs + 1 }

/-- Reading followed to its end, leg by leg; nothing if it has no end. -/
def read? (m : Model) (path : String) (context : Option Context) : Option Reading :=
  match m.readStep path context with
  | (.finished result, m) => some ⟨result, 1, m⟩
  | (.follow path context, m) => do
      let r ← m |>.read? path (some context)
      return { r with legs := r.legs + 1 }
partial_fixpoint

/-- The value at a path under a context; none if nothing is there. Reading that
never ends gives no answer when it is run, and the error stands for that. -/
def getProperty (m : Model) (path : String) (context : Option Context) :
    Except BindingError (Option Json) × Model :=
  match m.read? path context with
  | some r => (r.result, r.model)
  | none => (.error (.endlessLookup path), m)

end Model

end LiveDocuments
