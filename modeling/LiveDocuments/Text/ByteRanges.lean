import LiveDocuments.Powers

/-!
# Encodings of intervals

The UTF-8 encodings of the characters in an interval of code points, as rows of
byte ranges: each row is a product of ranges, one for every byte, and the rows
together are all encodings, in ascending order. An encoding is a leading byte with
the highest bits of the code point and a continuation byte for every six further
bits, so an interval is split where the leading digits of its ends differ.
-/

namespace LiveDocuments

namespace Text

/-- A range of bytes, or of digits of six bits, with both ends. -/
abbrev ByteRange := Nat × Nat

/-- The numbers of an interval as rows of ranges of their digits: `lower` digits of
six bits, and the digit above them without a bound. -/
def digitRows : Nat → Nat → Nat → List (List ByteRange)
  | 0, first, last => [[(first, last)]]
  | lower + 1, first, last =>
      let unit := twoTo (6 * (lower + 1))
      let low := first / unit
      let high := last / unit
      let lowEnd := first % unit
      let highEnd := last % unit
      if low = high then (digitRows lower lowEnd highEnd).map ((low, low) :: ·)
      else
        let wholeFrom := if lowEnd = 0 then low else low + 1
        let wholeTo := if highEnd + 1 = unit then high + 1 else high
        let head :=
          if lowEnd = 0 then [] else (digitRows lower lowEnd (unit - 1)).map ((low, low) :: ·)
        let whole :=
          if wholeFrom < wholeTo then
            [(wholeFrom, wholeTo - 1) :: List.replicate (lower + 1) (0, 63)]
          else []
        let tail :=
          if highEnd + 1 = unit then [] else (digitRows lower 0 highEnd).map ((high, high) :: ·)
        head ++ whole ++ tail

/-- The row with the tags of leading and continuation bytes. -/
def tagged (tag : Nat) : List ByteRange → List ByteRange
  | [] => []
  | (first, last) :: rest =>
      (first + tag, last + tag) :: rest.map fun (first, last) => (first + 0x80, last + 0x80)

/-- The code points with encodings of one form: how many continuation bytes there
are, the first and last code point, and the tag of the leading byte. -/
structure EncodingForm where
  continuations : Nat
  first : Nat
  last : Nat
  tag : Nat
deriving DecidableEq

/-- The forms of encodings. Surrogates have none. -/
def encodingForms : List EncodingForm := [
  ⟨0, 0, 0x7F, 0⟩, ⟨1, 0x80, 0x7FF, 0xC0⟩, ⟨2, 0x800, 0xD7FF, 0xE0⟩, ⟨2, 0xE000, 0xFFFF, 0xE0⟩,
  ⟨3, 0x10000, 0x10FFFF, 0xF0⟩]

/-- The encodings of an interval of code points. -/
def byteRows (first last : Nat) : List (List ByteRange) :=
  encodingForms.flatMap fun form =>
    let first := max first form.first
    let last := min last form.last
    if first ≤ last then (digitRows form.continuations first last).map (tagged form.tag) else []

end Text

end LiveDocuments
