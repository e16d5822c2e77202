/-!
# Cutting a text at a separator

Paths are cut at `/` and property paths at `.`. `pieces` keeps the empty pieces,
so that joining gives the text back; `segments` keeps only the pieces with
something in them, which is how paths are read: repeated separators and those at
either end mean nothing.
-/

namespace LiveDocuments

namespace Text

/-- The pieces of a text between separators, empty ones included. -/
def pieces (separator : Char) : List Char → List (List Char)
  | [] => [[]]
  | c :: rest =>
      if c = separator then [] :: pieces separator rest
      else
        match pieces separator rest with
        | [] => [[c]]
        | piece :: others => (c :: piece) :: others

@[simp] theorem pieces_nil (separator : Char) : pieces separator [] = [[]] := rfl

@[simp] theorem pieces_separator (separator : Char) (rest : List Char) :
    pieces separator (separator :: rest) = [] :: pieces separator rest := by
  simp [pieces]

theorem pieces_ne_nil (separator : Char) (cs : List Char) : pieces separator cs ≠ [] := by
  cases cs with
  | nil => simp
  | cons c rest =>
      unfold pieces
      split
      · simp
      · split <;> simp

/-- The pieces with something in them. -/
def segments (separator : Char) (cs : List Char) : List (List Char) :=
  (pieces separator cs).filter fun piece => !piece.isEmpty

@[simp] theorem segments_nil (separator : Char) : segments separator [] = [] := by
  simp [segments]

@[simp] theorem segments_separator (separator : Char) (rest : List Char) :
    segments separator (separator :: rest) = segments separator rest := by
  simp [segments]

/-- The pieces put together again with a separator between them. -/
def join (separator : Char) : List (List Char) → List Char
  | [] => []
  | [piece] => piece
  | piece :: others => piece ++ separator :: join separator others

@[simp] theorem join_nil (separator : Char) : join separator [] = [] := rfl

@[simp] theorem join_singleton (separator : Char) (piece : List Char) :
    join separator [piece] = piece := rfl

theorem join_cons_cons (separator : Char) (piece next : List Char)
    (others : List (List Char)) :
    join separator (piece :: next :: others) =
      piece ++ separator :: join separator (next :: others) := rfl

theorem join_pieces (separator : Char) (cs : List Char) :
    join separator (pieces separator cs) = cs := by
  induction cs with
  | nil => rfl
  | cons c rest ih =>
      unfold pieces
      split
      · next h =>
          subst h
          cases hp : pieces c rest with
          | nil => exact absurd hp (pieces_ne_nil c rest)
          | cons piece others =>
              rw [join_cons_cons, ← hp, ih]
              rfl
      · cases hp : pieces separator rest with
        | nil => exact absurd hp (pieces_ne_nil separator rest)
        | cons piece others =>
            rw [hp] at ih
            cases others with
            | nil =>
                simp only [join_singleton] at ih ⊢
                rw [ih]
            | cons next more =>
                rw [join_cons_cons] at ih ⊢
                rw [List.cons_append, ih]

end Text

end LiveDocuments
