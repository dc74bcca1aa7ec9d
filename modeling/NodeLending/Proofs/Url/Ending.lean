import Mathlib.Data.List.Basic
import NodeLending.Proofs.Decode.Reading
import NodeLending.Proofs.Text.Cutting
import NodeLending.Url.Parse

/-!
# What a URL that ends with a slash ends with

A text that ends with a slash is read as a URL. The slash belongs to whatever the text ends with: to
the path when no query and no fragment has been started, and to the query or the fragment otherwise.
The scheme, the user, the host and the port in front of the path hold no question mark and no number
sign, and the slash is never taken for a part of them, so that nothing else decides it.

## Main definitions

* `Url.IsFolder`: a URL whose path ends with a slash, with nothing behind it.
* `Url.Plain`: a text in which neither a query nor a fragment is started.

## Main results

* `Url.isFolder_iff_plain`: when a text that ends with a slash is the URL of a folder.
-/

namespace NodeLending.Url

/-- The path ends with a slash, and nothing stands behind it. -/
structure IsFolder (u : Url) : Prop where
  /-- The last segment is empty. -/
  path : ∃ ss, u.path = .segments (ss ++ [""])
  /-- There is no query. -/
  query : u.query = none
  /-- There is no fragment. -/
  fragment : u.fragment = none

/-- Where the folder is does not matter. -/
theorem isFolder_host {u : Url} {host : Option Host} :
    { u with host }.IsFolder ↔ u.IsFolder :=
  ⟨fun h => ⟨h.path, h.query, h.fragment⟩, fun h => ⟨h.path, h.query, h.fragment⟩⟩

/-- Neither a query nor a fragment is started in a text. -/
def Plain (cs : List Char) : Prop := ∀ c ∈ cs, c ≠ '?' ∧ c ≠ '#'

theorem plain_append {cs ds : List Char} : Plain (cs ++ ds) ↔ Plain cs ∧ Plain ds :=
  List.forall_mem_append

theorem plain_iff_notMem {cs : List Char} : Plain cs ↔ '?' ∉ cs ∧ '#' ∉ cs := by
  refine ⟨fun h => ⟨fun hc => (h _ hc).1 rfl, fun hc => (h _ hc).2 rfl⟩, fun h c hc => ⟨?_, ?_⟩⟩
  · exact fun heq => h.1 (heq ▸ hc)
  · exact fun heq => h.2 (heq ▸ hc)

theorem plain_takeWhile {p : Char → Bool} (hquery : p '?' = false) (hfragment : p '#' = false)
    (cs : List Char) : Plain (cs.takeWhile p) := by
  intro c hc
  have hpc := List.mem_takeWhile_imp hc
  constructor
  · rintro rfl
    exact absurd (hpc.symm.trans hquery) (by decide)
  · rintro rfl
    exact absurd (hpc.symm.trans hfragment) (by decide)

theorem plain_dropWhile {p : Char → Bool} (hquery : p '?' = false) (hfragment : p '#' = false)
    {cs : List Char} : Plain (cs.dropWhile p) ↔ Plain cs := by
  conv_rhs => rw [← List.takeWhile_append_dropWhile (p := p) (l := cs), plain_append]
  exact (and_iff_right (plain_takeWhile hquery hfragment cs)).symm

/-! ### What is left of a text

Each part that is read in front of the path leaves a text of the same kind: it still ends with the
slash, and it still is plain exactly when the whole was. -/

/-- Of a text that ends with a slash a text of the same kind is left. -/
structure Leaves (cs rest : List Char) : Prop where
  /-- It ends with a slash. -/
  slash : rest.getLast? = some '/'
  /-- No question mark and no number sign has been passed. -/
  plain : Plain rest ↔ Plain cs

namespace Leaves

variable {cs rest rest' front : List Char}

theorem refl (h : cs.getLast? = some '/') : Leaves cs cs := ⟨h, Iff.rfl⟩

theorem trans (h : Leaves cs rest) (h' : Leaves rest rest') : Leaves cs rest' :=
  ⟨h'.slash, h'.plain.trans h.plain⟩

/-- What is left behind a plain front. -/
theorem of_append (h : cs.getLast? = some '/') (hcut : front ++ rest = cs) (hfront : Plain front)
    (hrest : rest ≠ []) : Leaves cs rest where
  slash := by rwa [← hcut, List.getLast?_append_of_ne_nil front hrest] at h
  plain := by rw [← hcut, plain_append]; exact (and_iff_right hfront).symm

/-- What is left behind one character. -/
theorem of_cons {c : Char} (h : (c :: rest).getLast? = some '/')
    (hc : c ≠ '/' ∧ c ≠ '?' ∧ c ≠ '#') : Leaves (c :: rest) rest := by
  have hfront : Plain [c] := by simpa [Plain] using hc.2
  refine of_append h (List.singleton_append) hfront ?_
  rintro rfl
  exact hc.1 (Option.some.inj h)

end Leaves

/-- A class of characters with neither a slash nor anything that starts a query or a fragment. -/
structure IsInner (p : Char → Bool) : Prop where
  /-- The slash at the end is none of them. -/
  slash : p '/' = false
  /-- What starts a query is none of them. -/
  query : p '?' = false
  /-- What starts a fragment is none of them. -/
  fragment : p '#' = false

/-- A run of such characters leaves the rest. -/
theorem IsInner.leaves_dropWhile {p : Char → Bool} (hp : IsInner p) {cs : List Char}
    (h : cs.getLast? = some '/') : Leaves cs (cs.dropWhile p) := by
  refine .of_append h List.takeWhile_append_dropWhile (plain_takeWhile hp.query hp.fragment cs)
    fun hnil => ?_
  have hall := List.dropWhile_eq_nil_iff.mp hnil '/' (List.mem_of_getLast? h)
  exact absurd (hall.symm.trans hp.slash) (by decide)

variable {cs rest : List Char}

theorem isInner_authority (special : Bool) : IsInner fun c => !endsAuthority special c := by
  cases special <;> exact ⟨rfl, rfl, rfl⟩

/-! ### The parts in front of the path -/

theorem leaves_counting (h : cs.getLast? = some '/') : Leaves cs (counting cs) := by
  have hleft := IsInner.leaves_dropWhile (p := isOuter) ⟨by decide, by decide, by decide⟩ h
  obtain ⟨front, hfront⟩ := List.getLast?_eq_some_iff.mp hleft.slash
  -- The slash keeps everything in front of it from being an end of the text.
  have hcounting : counting cs =
      front.filter (fun c => !(c == '\t' || c == '\n' || c == '\r')) ++ ['/'] := by
    rw [counting, hfront, List.reverse_append, List.reverse_singleton, List.singleton_append,
      List.dropWhile_cons_of_neg (by decide), List.reverse_cons, List.reverse_reverse,
      List.filter_append]
    rfl
  rw [hfront] at hleft
  refine hleft.trans ⟨by rw [hcounting, List.getLast?_concat], ?_⟩
  rw [hcounting, plain_append, plain_append]
  refine and_congr_left' ⟨fun hplain c hc => ?_, fun hplain c hc =>
    hplain c (List.mem_of_mem_filter hc)⟩
  by_cases hpassed : (c == '\t' || c == '\n' || c == '\r') = true
  · simp only [Bool.or_eq_true, beq_iff_eq] at hpassed
    obtain (rfl | rfl) | rfl := hpassed <;> decide
  · exact hplain c (List.mem_filter.mpr ⟨hc, by simpa using hpassed⟩)

theorem leaves_scheme? {scheme : String} (h : cs.getLast? = some '/')
    (hs : scheme? cs = some (scheme, rest)) : Leaves cs rest := by
  have hleft := IsInner.leaves_dropWhile (p := fun c => !!isSchemeChar c) ⟨rfl, rfl, rfl⟩ h
  rw [scheme?] at hs
  split at hs
  next c s behind heq =>
    have hbehind : cs.dropWhile (fun c => !!isSchemeChar c) = ':' :: behind :=
      congrArg Prod.snd heq
    split at hs
    · obtain ⟨-, rfl⟩ := Prod.mk.inj (Option.some.inj hs)
      rw [hbehind] at hleft
      exact hleft.trans (.of_cons hleft.slash (by decide))
    · cases hs
  next => cases hs

/-- The last at sign stands between the two parts. -/
theorem append_of_cutAtLastAt {user host : List Char} (h : cutAtLastAt cs = some (user, host)) :
    user ++ '@' :: host = cs := by
  have hreverse : cs.reverse.takeWhile (· != '@') ++ cs.reverse.dropWhile (· != '@') =
      cs.reverse := List.takeWhile_append_dropWhile
  have hhead := List.head?_dropWhile_not (· != '@') cs.reverse
  rw [cutAtLastAt] at h
  split at h
  next => cases h
  next c back hback =>
    obtain ⟨rfl, rfl⟩ := Prod.mk.inj (Option.some.inj h)
    rw [hback] at hreverse hhead ⊢
    obtain rfl : c = '@' := by simpa using hhead
    have hcs : (back.reverse ++ ['@']) ++ (cs.reverse.takeWhile (· != '@')).reverse = cs := by
      simpa using congrArg List.reverse hreverse
    have hhost : cs.drop ('@' :: back).length = (cs.reverse.takeWhile (· != '@')).reverse := by
      conv_lhs => rw [← hcs]
      exact List.drop_left' (by simp)
    rw [hhost, List.append_cons, hcs]

theorem leaves_user? {special : Bool} {name password : String} (h : cs.getLast? = some '/')
    (hu : user? special cs = .ok (name, password, rest)) : Leaves cs rest := by
  have hinner := isInner_authority special
  have hleft := hinner.leaves_dropWhile h
  have hplain := plain_takeWhile (p := fun c => !endsAuthority special c) hinner.query
    hinner.fragment cs
  rw [user?] at hu
  dsimp only [Text.cutAt] at hu
  split at hu
  next =>
    cases hu
    exact .refl h
  next user host hat =>
    have hauthority := append_of_cutAtLastAt hat
    split at hu
    · cases hu
    · simp only [Except.ok.injEq, Prod.mk.injEq] at hu
      obtain ⟨-, -, rfl⟩ := hu
      rw [← hauthority, List.append_cons, plain_append] at hplain
      refine .of_append h ?_ hplain.1 ?_
      · rw [← List.append_assoc, ← List.append_cons, hauthority, List.takeWhile_append_dropWhile]
      · have hrest := List.ne_nil_of_mem (List.mem_of_getLast? hleft.slash)
        exact List.append_ne_nil_of_right_ne_nil host hrest

theorem leaves_cutHost (special inBrackets : Bool) (h : cs.getLast? = some '/') :
    Leaves cs (cutHost special inBrackets cs).2 := by
  induction cs generalizing inBrackets with
  | nil => cases h
  | cons c cs ih =>
    rw [cutHost]
    split
    · exact .refl h
    next hgo =>
      have hc : c ≠ '/' ∧ c ≠ '?' ∧ c ≠ '#' := by
        have hstop := fun hends => hgo (.inl hends)
        refine ⟨?_, ?_, ?_⟩ <;> (rintro rfl; exact hstop rfl)
      have hleft := Leaves.of_cons h hc
      exact hleft.trans (ih _ hleft.slash)

theorem leaves_port? {scheme : String} {port : Option Nat} (h : cs.getLast? = some '/')
    (hp : port? scheme cs = .ok (port, rest)) : Leaves cs rest := by
  have hleft := IsInner.leaves_dropWhile (p := fun c => !!c.isDigit) ⟨rfl, rfl, rfl⟩ h
  have hfinish {digits behind : List Char}
      (hf : port?.finish scheme digits behind = .ok (port, rest)) : behind = rest := by
    unfold port?.finish at hf
    split at hf
    · cases hf; rfl
    · split at hf <;> cases hf
      rfl
  have hbehind : cs.dropWhile (fun c => !!c.isDigit) = rest := by
    rw [port?] at hp
    dsimp only [Text.cutAt] at hp
    split at hp
    · split at hp
      · exact hfinish hp
      · cases hp
    · exact hfinish hp
  rwa [hbehind] at hleft

theorem leaves_hostAndPort? [Idna] {scheme : String} {host : Host} {port : Option Nat}
    (h : cs.getLast? = some '/') (hp : hostAndPort? scheme cs = .ok (host, port, rest)) :
    Leaves cs rest := by
  have hleft := leaves_cutHost (isSpecial scheme) false h
  rw [hostAndPort?] at hp
  dsimp only at hp
  split at hp
  · cases hp
  -- The two kinds of hosts differ in how they are read, and not in how far.
  split at hp
  all_goals
    obtain ⟨_, -, hp⟩ := bind_eq_ok_iff.mp hp
    split at hp
    next digits hdigits =>
      split at hp
      · cases hp
      · obtain ⟨⟨port', rest'⟩, hport, hp⟩ := bind_eq_ok_iff.mp hp
        cases hp
        rw [hdigits] at hleft
        have hbehind := hleft.trans (.of_cons hleft.slash (by decide))
        exact hbehind.trans (leaves_port? hbehind.slash hport)
    next =>
      cases hp
      exact hleft

/-! ### The path, and what stands behind it -/

/-- The last segment is empty when the last piece is. -/
theorem exists_addSegments_concat (read : List String) (pieces : List (List Char)) :
    ∃ ss, addSegments read (pieces ++ [[]]) = ss ++ [""] := by
  induction pieces generalizing read with
  | nil => exact ⟨read, rfl⟩
  | cons piece rest ih =>
    rw [List.cons_append, addSegments]
    split
    · exact ih _
    · split <;> exact ih _

theorem exists_segments (special : Bool) (h : cs.getLast? = some '/') :
    ∃ ss, segments special cs = ss ++ [""] := by
  obtain ⟨front, rfl⟩ := List.getLast?_eq_some_iff.mp h
  have hslash : ('/' == '/' || (special && '/' == '\\')) = true := by simp
  cases front with
  | nil => exact ⟨[], by cases special <;> rfl⟩
  | cons c front =>
    rw [List.cons_append, segments]
    split
    · rw [Text.splitAt_concat hslash]
      exact exists_addSegments_concat _ _
    · rw [← List.cons_append, Text.splitAt_concat hslash]
      exact exists_addSegments_concat _ _

/-- Empty segments in front are all that the path of a file leaves out. -/
theorem exists_fileSegments (h : cs.getLast? = some '/') :
    ∃ ss, fileSegments cs = ss ++ [""] := by
  obtain ⟨ss, hss⟩ := exists_segments true h
  rw [fileSegments, hss]
  split
  next => exact ⟨[], rfl⟩
  next hne =>
    refine List.getLast?_eq_some_iff.mp ?_
    have hcut := List.takeWhile_append_dropWhile (p := (· == "")) (l := ss ++ [""])
    rw [← List.getLast?_append_of_ne_nil _ hne, hcut, List.getLast?_concat]

/-- Behind the host a plain text is all path, and any other one starts a query or a fragment. -/
theorem isFolder_withRest {special : Bool} {build : List Char → Path} {u : Url}
    (hbuild : ∀ path : List Char, path.getLast? = some '/' →
      ∃ ss, build path = .segments (ss ++ [""]))
    (h : cs.getLast? = some '/') : (withRest special cs build u).IsFolder ↔ Plain cs := by
  have hnone {xs : List Char} {s : String} :
      (if xs.isEmpty then none else some s) = none ↔ xs = [] := by simp
  rw [withRest, plain_iff_notMem]
  dsimp only
  constructor
  · rintro ⟨-, hquery, hfragment⟩
    have hnumber := Text.cutAt_eq_nil_iff.mp (hnone.mp hfragment)
    rw [Text.cutAt_of_notMem hnumber] at hquery
    exact ⟨Text.cutAt_eq_nil_iff.mp (hnone.mp hquery), hnumber⟩
  · rintro ⟨hquestion, hnumber⟩
    rw [Text.cutAt_of_notMem hnumber, Text.cutAt_of_notMem hquestion]
    exact ⟨hbuild cs h, rfl, rfl⟩

/-! ### URLs -/

/-- If the URL names a machine, it is that of a folder exactly when the text is plain. -/
def ReadsAs (cs : List Char) (u : Url) : Prop := u.hasHost = true → (u.IsFolder ↔ Plain cs)

theorem ReadsAs.of_leaves {u : Url} (h : Leaves cs rest) (hu : ReadsAs rest u) : ReadsAs cs u :=
  fun hhost => (hu hhost).trans h.plain

/-- Nothing is said of a URL that names no machine. -/
theorem ReadsAs.of_hostless {u : Url} (h : u.hasHost = false) : ReadsAs cs u :=
  fun hhost => absurd (h.symm.trans hhost) (by decide)

theorem eq_empty_of_hostAndPort?_nil [Idna] {scheme : String} {host : Host} {port : Option Nat}
    (h : hostAndPort? scheme [] = .ok (host, port, rest)) : host = .empty := by
  rw [hostAndPort?] at h
  cases hspecial : isSpecial scheme with
  | true => rw [hspecial] at h; cases h
  | false => rw [hspecial] at h; cases h; rfl

/-- Behind the slashes of the scheme there may be nothing left, but then there is no host either. -/
theorem readsAs_afterSlashes [Idna] {scheme : String} {front : List Char} {u : Url}
    (h : cs.getLast? = some '/') (hcut : front ++ rest = cs) (hfront : Plain front)
    (hu : afterSlashes scheme rest = .ok u) : ReadsAs cs u := by
  rw [afterSlashes] at hu
  obtain ⟨⟨name, password, behind⟩, huser, hu⟩ := bind_eq_ok_iff.mp hu
  obtain ⟨⟨host, port, path⟩, hhost, hu⟩ := bind_eq_ok_iff.mp hu
  dsimp only at hu
  split at hu
  · cases hu
  cases hu
  by_cases hrest : rest = []
  · subst hrest
    cases huser
    exact .of_hostless (by rw [eq_empty_of_hostAndPort?_nil hhost]; rfl)
  · have hleft := Leaves.of_append h hcut hfront hrest
    have hbehind := hleft.trans (leaves_user? hleft.slash huser)
    have hpath := hbehind.trans (leaves_hostAndPort? hbehind.slash hhost)
    refine .of_leaves hpath fun _ => isFolder_withRest (fun cs hcs => ?_) hpath.slash
    obtain ⟨ss, hss⟩ := exists_segments (isSpecial scheme) hcs
    exact ⟨ss, congrArg Path.segments hss⟩

theorem hasHost_fileOn_empty (cs : List Char) : (fileOn .empty cs).hasHost = false := by
  rw [fileOn]
  split
  · split <;> rfl
  · rfl

theorem readsAs_fileOn (host : Host) (h : cs.getLast? = some '/') :
    ReadsAs cs (fileOn host cs) := by
  have hfolder : (withRest true cs (fun path => .segments (fileSegments path))
      (ofScheme "file")).IsFolder ↔ Plain cs := by
    refine isFolder_withRest (fun path hpath => ?_) h
    obtain ⟨ss, hss⟩ := exists_fileSegments hpath
    exact ⟨ss, congrArg Path.segments hss⟩
  rw [fileOn]
  split
  · split
    · exact .of_hostless rfl
    · exact fun _ => isFolder_host.trans hfolder
  · exact fun _ => isFolder_host.trans hfolder

theorem readsAs_file [Idna] {u : Url} (h : cs.getLast? = some '/') (hu : file cs = .ok u) :
    ReadsAs cs u := by
  rw [file.eq_def] at hu
  dsimp only at hu
  split at hu
  next a b rest =>
    split at hu
    next hslashes =>
      split at hu
      · cases hu
        exact .of_hostless (hasHost_fileOn_empty rest)
      next hnamed =>
        obtain ⟨host, -, hu⟩ := bind_eq_ok_iff.mp hu
        cases hu
        have hrest : rest ≠ [] := by
          rintro rfl
          exact hnamed (.inl rfl)
        have hfront : Plain [a, b] := by
          obtain ⟨ha, hb⟩ := hslashes
          simp only [Bool.or_eq_true, beq_iff_eq] at ha hb
          rcases ha with rfl | rfl <;> rcases hb with rfl | rfl <;> simp [Plain]
        have hleft : Leaves ([a, b] ++ rest) rest := .of_append h rfl hfront hrest
        have hpath := (isInner_authority true).leaves_dropWhile hleft.slash
        exact .of_leaves (hleft.trans hpath) (readsAs_fileOn _ hpath.slash)
    · cases hu
      exact .of_hostless (hasHost_fileOn_empty _)
  · cases hu
    exact .of_hostless (hasHost_fileOn_empty _)

/-- **The slash that a text ends with ends the path exactly when nothing stands between them.** Of a
URL that names a machine nothing follows the path, and its path ends with a slash, exactly when the
text with its slash at the end starts neither a query nor a fragment. -/
theorem isFolder_iff_plain [Idna] {s : String} {u : Url} (h : s.toList.getLast? = some '/')
    (hu : parse? s = .ok u) (hhost : u.hasHost = true) : u.IsFolder ↔ Plain s.toList := by
  refine ReadsAs.of_leaves (leaves_counting h) ?_ hhost
  have hcounting := (leaves_counting h).slash
  rw [parse?] at hu
  split at hu
  · cases hu
  next scheme rest hscheme =>
    have hleft := leaves_scheme? hcounting hscheme
    refine .of_leaves hleft ?_
    split at hu
    · exact readsAs_file hleft.slash hu
    · split at hu
      · exact readsAs_afterSlashes hleft.slash List.takeWhile_append_dropWhile
          (plain_takeWhile rfl rfl rest) hu
      · split at hu
        next path =>
          have hfront : Plain ['/', '/'] := by simp [Plain]
          exact readsAs_afterSlashes hleft.slash rfl hfront hu
        · cases hu
          exact .of_hostless rfl
        · cases hu
          exact .of_hostless rfl

end NodeLending.Url
