import NodeLending.Repository.Directory
import NodeLending.Text.Blank

/-!
# Cloned repositories

A repository that does not lie in a directory is cloned into a directory of its own, which is then
read. The clone may not start, may take too long, or may fail and say why.

## Main definitions

* `Clone`: how cloning went, and `Clone.read` the file tree it leads to.
-/

namespace NodeLending

/-- A time in words: whole seconds and their fraction, or milliseconds below one second. -/
def millisecondsText (ms : Nat) : String :=
  if ms = 0 then "0ns"
  else if ms < 1000 then toString ms ++ "ms"
  else
    let digits := Nat.toDigits 10 (1000 + ms % 1000)
    let fraction := (digits.tail.reverse.dropWhile (· == '0')).reverse
    toString (ms / 1000) ++ (if fraction.isEmpty then "" else "." ++ String.ofList fraction) ++ "s"

/-- How cloning went. -/
inductive Clone where
  /-- It did not start. -/
  | notStarted (reason : String)
  /-- It took longer than it may. -/
  | timedOut (milliseconds : Nat)
  /-- It failed. -/
  | failed (output : String)
  /-- It succeeded; without a checkout if it left none. -/
  | done (checkout : Option Directory.Entry)
  deriving Repr

namespace Clone

/-- The file tree of a repository, whose checkout is known by a text in errors. -/
def read (url checkout : String) : Clone → Except FetchError FileTree
  | notStarted reason => .error (.cloneFailed url reason)
  | timedOut ms => .error (.unreachable url s!"git clone timed out after {millisecondsText ms}")
  | failed output => .error (.cloneFailed url (Text.trim output))
  | done none => .error (.unreadable checkout Directory.missing)
  | done (some e) => Directory.read checkout e

end Clone

end NodeLending
