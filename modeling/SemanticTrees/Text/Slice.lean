/-!
Parts of a text by their place in bytes. A place counts the bytes in UTF-8 in front of it, and a
part exists only between places that fall between characters.
-/

namespace SemanticTrees.Text

/-- The number of bytes of a list of characters. -/
def byteSize : List Char → Nat
  | [] => 0
  | c :: rest => c.utf8Size + byteSize rest

/-- The bytes of two texts in a row are those of both. -/
@[simp] theorem byteSize_append (first last : List Char) :
    byteSize (first ++ last) = byteSize first + byteSize last := by
  induction first with
  | nil => simp [byteSize]
  | cons c rest ih => simp [byteSize, ih, Nat.add_assoc]

/-- A text in two, the first part having exactly the given number of bytes. -/
def splitAtByte : Nat → List Char → Option (List Char × List Char)
  | 0, text => some ([], text)
  | _ + 1, [] => none
  | n + 1, c :: rest =>
    if c.utf8Size ≤ n + 1 then
      (splitAtByte (n + 1 - c.utf8Size) rest).map fun (first, last) => (c :: first, last)
    else none

/-- The part of a text between two places in bytes. -/
def slice (text : List Char) (start stop : Nat) : Option (List Char) :=
  if start ≤ stop then
    match splitAtByte start text with
    | some (_, rest) => (splitAtByte (stop - start) rest).map Prod.fst
    | none => none
  else none

end SemanticTrees.Text
