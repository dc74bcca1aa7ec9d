/-!
# Cutting texts

## Main definitions

* `Text.cutAt`: a text up to the first character of a class, and the rest from that character on.
* `Text.splitAt`: the pieces of a text between the characters of a class.
* `Text.join`: texts with another text between them.

## Main results

* `Text.splitAt_ne_nil`: there is at least one piece.
-/

namespace NodeLending.Text

/-- A text up to the first character of a class, and the rest from that character on. -/
def cutAt (p : Char → Bool) (cs : List Char) : List Char × List Char :=
  (cs.takeWhile fun c => !p c, cs.dropWhile fun c => !p c)

/-- The pieces of a text between the characters of a class. -/
def splitAt (p : Char → Bool) : List Char → List (List Char)
  | [] => [[]]
  | c :: cs =>
    if p c then [] :: splitAt p cs
    else
      match splitAt p cs with
      | piece :: rest => (c :: piece) :: rest
      | [] => [[c]]

/-- The pieces of a text between the occurrences of a character. -/
def splitOn (c : Char) (s : String) : List String :=
  (splitAt (· == c) s.toList).map String.ofList

/-- Texts with another text between them. -/
def join (between : String) (texts : List String) : String := between.intercalate texts

/-- There is at least one piece. -/
theorem splitAt_ne_nil (p : Char → Bool) (cs : List Char) : splitAt p cs ≠ [] := by
  cases cs with
  | nil => simp [splitAt]
  | cons c cs =>
    rw [splitAt]
    split
    · simp
    · split <;> simp

end NodeLending.Text
