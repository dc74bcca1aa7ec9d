import NodeLending.Repository.FileTree
import NodeLending.Text.Split
import NodeLending.Text.Utf8

/-!
# Directories that hold a repository

A working copy is read as a file tree: every file below the root that is reached through
directories only, by its path with slashes between the parts. Directories named `.git` are passed
over at every depth, links are not followed, and whatever is neither a file nor a directory is
left out. A file that is named `.git` is read like any other. Contents that are not UTF-8 are read
with replacement characters. If anything that has to be read cannot be read, there is no tree.

One directory is listed at a time. Its files are read as they are listed, and its directories are
put on a stack of those that are still to be listed. So the order in which files are read, and the
one of several faults that is met first, depend on the listings.

## Main definitions

* `Directory.Entry`: what stands in a directory.
* `Directory.Reading`: a working copy while it is read, and `Directory.Reading.run` to its end.
* `Directory.read`: the file tree below a root.
* `Directory.follow`, `Directory.Entry.put`: the entry that a path leads to, and a new one.

## Main results

* `Directory.Reading.left_list`: with every directory there is less left to be looked at.
-/

namespace NodeLending

/-- Why a repository was not fetched. -/
inductive FetchError where
  /-- A file or a directory cannot be read. -/
  | unreadable (path reason : String)
  /-- The repository cannot be cloned. -/
  | cloneFailed (url reason : String)
  /-- There is no answer from where the repository lies. -/
  | unreachable (url reason : String)
  deriving DecidableEq, Repr

/-- The wording of a fetch error. -/
def FetchError.message : FetchError → String
  | .unreadable path reason => s!"failed to read '{path}': {reason}"
  | .cloneFailed url reason => s!"failed to clone '{url}': {reason}"
  | .unreachable url reason => s!"repository '{url}' is unreachable: {reason}"

namespace Directory

/-- What stands under a name in a directory. -/
inductive Entry where
  /-- A file. -/
  | file (content : List UInt8)
  /-- A directory; its entries in the order in which they are listed. -/
  | directory (entries : List (String × Entry))
  /-- A link to another path. -/
  | link (target : String)
  /-- Something else. -/
  | other
  /-- A file that cannot be read, or a directory that cannot be listed. -/
  | sealed (isDirectory : Bool) (reason : String)
  /-- A directory whose listing breaks off behind some entries. -/
  | broken (entries : List (String × Entry)) (reason : String)
  /-- Something of which it cannot be found out what it is. -/
  | obscure (reason : String)
  deriving Repr, Inhabited

/-- The reason when there is nothing at a path. -/
def missing : String := "No such file or directory (os error 2)"

/-- The reason when a path goes on behind something that is no directory. -/
def notDirectory : String := "Not a directory (os error 20)"

/-- The reason when links lead to links without end. -/
def tooManyLinks : String := "Too many levels of symbolic links (os error 40)"

/-- The name of the directories that are passed over. -/
def passedOver : String := ".git"

/-- The text of a path below a root. -/
def placeText (root : String) (path : List String) : String := Text.join "/" (root :: path)

/-- Whether an entry is a directory. -/
def Entry.isDirectory : Entry → Bool
  | .directory _ | .sealed true _ | .broken _ _ => true
  | _ => false

/-- The entries that the listing of a directory shows. -/
def Entry.listed : Entry → List (String × Entry)
  | .directory entries | .broken entries _ => entries
  | _ => []

/-- Why an entry cannot be read, or not to its end. -/
def Entry.fault? : Entry → Option String
  | .sealed _ reason | .broken _ reason | .obscure reason => some reason
  | _ => none

/-! ### Reading a working copy -/

/-- A working copy while it is read. -/
structure Reading where
  /-- The files that have been read. -/
  files : FileTree
  /-- The directories that are still to be listed, with their paths, the next one first. -/
  pending : List (List String × Entry)

namespace Reading

/-- Look at an entry of the directory at a path. -/
def visit (root : String) (path : List String) (r : Reading) (named : String × Entry) :
    Except FetchError Reading :=
  let here := path ++ [named.1]
  if named.2.isDirectory then
    .ok (if named.1 = passedOver then r else { r with pending := (here, named.2) :: r.pending })
  else
    match named.2 with
    | .file content =>
      .ok { r with files := r.files.insert (Text.join "/" here) (Text.ofUtf8 content) }
    | .sealed _ reason | .obscure reason => .error (.unreadable (placeText root here) reason)
    | _ => .ok r

/-- List the directory at a path, and look at its entries. -/
def list (root : String) (path : List String) (e : Entry) (r : Reading) :
    Except FetchError Reading := do
  let r ← e.listed.foldlM (visit root path) r
  match e.fault? with
  | some reason => .error (.unreadable (placeText root path) reason)
  | none => return r

end Reading

mutual

/-- How many entries there are, at any depth. -/
def Entry.total : Entry → Nat
  | .directory entries | .broken entries _ => totalOf entries + 1
  | _ => 1

/-- How many entries there are in a listing, at any depth. -/
def totalOf : List (String × Entry) → Nat
  | [] => 0
  | (_, e) :: rest => e.total + totalOf rest

end

theorem Entry.total_eq (e : Entry) : e.total = totalOf e.listed + 1 := by
  cases e <;> rfl

namespace Reading

/-- How many entries are left to be looked at, at any depth. -/
def left (r : Reading) : Nat := r.pending.foldr (fun p n => p.2.total + n) 0

theorem left_visit {root : String} {path : List String} {r r' : Reading} {x : String × Entry}
    (h : visit root path r x = .ok r') : r'.left ≤ r.left + x.2.total := by
  simp only [visit] at h
  split at h
  · cases h
    split
    · exact Nat.le_add_right _ _
    · simp only [left, List.foldr_cons]
      omega
  · split at h <;> cases h <;> exact Nat.le_add_right _ _

theorem left_foldlM_visit {root : String} {path : List String} {l : List (String × Entry)}
    {r r' : Reading} (h : l.foldlM (visit root path) r = .ok r') :
    r'.left ≤ r.left + totalOf l := by
  induction l generalizing r with
  | nil => cases h; exact Nat.le_refl _
  | cons x l ih =>
    rw [List.foldlM_cons] at h
    cases hx : visit root path r x with
    | error e => rw [hx] at h; cases h
    | ok next =>
      rw [hx] at h
      have hfirst := left_visit hx
      have hlater := ih h
      simp only [totalOf]
      omega

/-- With every directory there is less left to be looked at. -/
theorem left_list {root : String} {path : List String} {e : Entry} {r r' : Reading}
    (h : list root path e r = .ok r') : r'.left < r.left + e.total := by
  rw [list] at h
  cases hfold : e.listed.foldlM (visit root path) r with
  | error err => rw [hfold] at h; cases h
  | ok next =>
    rw [hfold] at h
    have hle := left_foldlM_visit hfold
    have htotal := e.total_eq
    cases hfault : e.fault? with
    | some reason => simp only [bind, Except.bind, hfault] at h; cases h
    | none =>
      simp only [bind, Except.bind, hfault] at h
      cases h
      omega

/-- List the directories that are still to be listed, and those that are met with. -/
def run (root : String) (r : Reading) : Except FetchError FileTree :=
  match hpending : r.pending with
  | [] => .ok r.files
  | (path, e) :: rest =>
    match hlist : list root path e ⟨r.files, rest⟩ with
    | .error err => .error err
    | .ok next =>
      have : next.left < r.left := by
        have h := left_list hlist
        simp only [left, hpending, List.foldr_cons] at h ⊢
        omega
      next.run root
  termination_by r.left

/-- With nothing left to be listed the files are those that have been read. -/
theorem run_nil (root : String) (files : FileTree) : run root ⟨files, []⟩ = .ok files := by
  rw [run]

/-- One directory is listed after another. -/
theorem run_cons (root : String) (files : FileTree) (path : List String) (e : Entry)
    (rest : List (List String × Entry)) :
    run root ⟨files, (path, e) :: rest⟩ = list root path e ⟨files, rest⟩ >>= run root := by
  rw [run]
  dsimp only
  split
  · next err herr => rw [herr]; rfl
  · next r hr => rw [hr]; rfl

end Reading

/-- The file tree below a root, which is known by a text in errors. -/
def read (root : String) (e : Entry) : Except FetchError FileTree :=
  if e.isDirectory then Reading.run root ⟨.empty, [([], e)]⟩
  else .error (.unreadable root notDirectory)

/-! ### Paths -/

/-- The entry under a name. -/
def Entry.child? (name : String) (e : Entry) : Option Entry := e.listed.lookup name

/-- Follow a path from a stack of directories, innermost first and the root last. At most `links`
links are followed. -/
def followFrom (links : Nat) (root : Entry) (stack : List Entry) (path : List String) :
    Except String Entry :=
  match path with
  | [] => .ok (stack.headD root)
  | name :: rest =>
    let here := stack.headD root
    if name = "" ∨ name = "." then followFrom links root stack rest
    else if name = ".." then followFrom links root stack.tail rest
    else if ¬here.isDirectory then .error notDirectory
    else
      match here.child? name with
      | none => .error missing
      | some (.link target) =>
        match links with
        | 0 => .error tooManyLinks
        | n + 1 => followFrom n root stack (Text.splitOn '/' target ++ rest)
      | some e => followFrom links root (e :: stack) rest
  termination_by (links, path.length)

/-- The entry that a path leads to, links included. -/
def follow (root : Entry) (path : String) : Except String Entry :=
  followFrom 40 root [] (Text.splitOn '/' path)

/-- Read the file tree below a path. -/
def readAt (root : Entry) (place path : String) : Except FetchError FileTree :=
  match follow root path with
  | .ok e => read place e
  | .error reason => .error (.unreadable place reason)

/-- Put an entry at a path; directories that are not there yet are made. -/
def Entry.put (new : Entry) : List String → Entry → Entry
  | [], _ => new
  | name :: rest, here =>
    let entries := match here with
      | .directory entries => entries
      | _ => []
    let inner := new.put rest ((entries.lookup name).getD (.directory []))
    if (entries.lookup name).isSome then
      .directory (entries.map fun e => if e.1 = name then (name, inner) else e)
    else .directory (entries ++ [(name, inner)])

/-- Make a directory at a path, unless something stands there. -/
def Entry.make : List String → Entry → Entry
  | [], here => here
  | name :: rest, here =>
    let inner := (here.child? name).getD (.directory [])
    (inner.make rest).put [name] here

end Directory

end NodeLending
