import NodeLending.Party
import NodeLending.Proofs.Url.Ending

/-!
# The endpoint of a party

A party is reached below its URL: the endpoint of a repository is the folder of the URL, followed by
the namespace of the repository. The folder is the URL itself when the path ends with a slash and
nothing follows it, and a slash is put behind the text of the URL to that end. It gets there unless
the text has a query or a fragment, which takes the slash instead.

The first repository that a party is asked for decides its endpoint. It is kept together with the
party, and by each copy that is made from then on.

## Main definitions

* `Url.folder`: the folder that relative paths start from.
* `Party.Use`, `Party.answers`: what is done with the objects that hold a party.

## Main results

* `Url.text_folder_eq_iff`: which URLs are folders.
* `Party.answers_staysWith`: objects that have been asked keep to their endpoint.
* `Party.endpoint_below_url`: when the endpoint lies below the URL.
-/

namespace NodeLending

/-! ### Folders -/

namespace Url

variable {u : Url} {ss : List String}

/-- The folder that a URL is in. -/
def folder (u : Url) : Url := u.resolve [""]

theorem Path.text_concat (ss : List String) (s : String) :
    (Path.segments (ss ++ [s])).text = (Path.segments ss).text ++ "/" ++ s := by
  rw [Path.text_append, String.append_assoc]
  rfl

/-- The machine stays the same, and with it all that stands in front of the path. -/
theorem text_resolve (hhost : u.hasHost = true) (hpath : u.path = .segments ss)
    (relative : List String) : (u.resolve relative).text =
      u.scheme ++ ":" ++ u.authorityText ++ (Path.segments (ss.dropLast ++ relative)).text := by
  obtain ⟨scheme, username, password, host, port, path, query, fragment⟩ := u
  cases hpath
  cases host with
  | none => cases hhost
  | some host =>
    rw [text]
    change _ ++ "" ++ "" = _
    rw [String.append_empty, String.append_empty]
    rfl

/-- What lies below a URL lies below its folder. -/
theorem text_resolve_folder (hhost : u.hasHost = true) (hpath : u.path = .segments ss)
    (s : String) : (u.resolve [s, ""]).text = u.folder.text ++ s ++ "/" := by
  rw [folder, text_resolve hhost hpath, text_resolve hhost hpath, List.append_cons]
  simp only [Path.text_concat, String.append_assoc]
  simp

/-- A URL is the folder that it is in exactly when it ends with its path, and the path with a
slash. -/
theorem text_folder_eq_iff (hhost : u.hasHost = true) (hpath : u.path = .segments ss) :
    u.folder.text = u.text ↔ u.IsFolder := by
  have hnone (mark : String) (hmark : mark ≠ "") (s : Option String) :
      (s.map (mark ++ ·)).getD "" = "" ↔ s = none := by
    cases s <;> simp [String.append_eq_empty_iff, hmark]
  have hfolder : u.IsFolder ↔ ss.getLast? = some "" ∧ u.query = none ∧ u.fragment = none := by
    rw [List.getLast?_eq_some_iff]
    constructor
    · rintro ⟨⟨ss', hss⟩, hquery, hfragment⟩
      exact ⟨⟨ss', Path.segments.inj (hpath.symm.trans hss)⟩, hquery, hfragment⟩
    · rintro ⟨⟨ss', rfl⟩, hquery, hfragment⟩
      exact ⟨⟨ss', hpath⟩, hquery, hfragment⟩
  rw [folder, text_resolve hhost hpath, hfolder, text, hpath]
  rcases List.eq_nil_or_concat ss with rfl | ⟨init, last, rfl⟩
  · -- A path without segments is followed by no slash, only by a question mark or a number sign.
    refine iff_of_false (fun h => ?_) nofun
    simp only [String.append_assoc, String.append_right_inj] at h
    have hhead := congrArg (fun s => s.toList.head?) h
    cases hquery : u.query <;> cases hfragment : u.fragment <;>
      simp [hquery, hfragment, Path.text] at hhead
  · rw [List.concat_eq_append, List.dropLast_concat, Path.text_concat, Path.text_concat,
      List.getLast?_concat]
    simp only [String.append_assoc, String.append_right_inj]
    rw [eq_comm, String.append_eq_empty_iff, String.append_eq_empty_iff, hnone "?" (by decide),
      hnone "#" (by decide), Option.some.injEq]

end Url

/-! ### Texts with a slash behind them -/

namespace Party

theorem getLast?_slashedText (url : String) : (slashedText url).toList.getLast? = some '/' := by
  rw [slashedText, String.toList_ofList]
  split
  next h => exact h
  next => exact List.getLast?_concat

/-- Blanks start nothing, and neither does a slash. -/
theorem plain_slashedText {url : String} :
    Url.Plain (slashedText url).toList ↔ Url.Plain url.toList := by
  have hdrop (cs : List Char) : Url.Plain (cs.dropWhile Text.isBlank) ↔ Url.Plain cs :=
    Url.plain_dropWhile (by decide) (by decide)
  have hreverse (cs : List Char) : Url.Plain cs.reverse ↔ Url.Plain cs := by
    simp only [Url.Plain, List.mem_reverse]
  have htrim : Url.Plain (Text.trimChars url.toList) ↔ Url.Plain url.toList := by
    rw [Text.trimChars, Text.trimRight, hreverse, hdrop, hreverse, Text.trimLeft, hdrop]
  rw [slashedText, String.toList_ofList, ← htrim]
  split
  · rfl
  · rw [Url.plain_append]
    exact and_iff_left (by simp [Url.Plain])

variable {p : Party} {url name : String} {credential : Option String}

theorem of?_eq_ok_iff [Url.Idna] : of? url name credential = .ok p ↔
    Name.parse? .party name = .ok p.name ∧ Url.parse? (slashedText url) = .ok p.url ∧
      p.url.isBase = true ∧ p.url.hasHost = true ∧ p.credential = credential? credential := by
  simp only [of?, bind_eq_ok_iff, mapError_eq_ok_iff]
  constructor
  · rintro ⟨name', hname, url', hurl, hp⟩
    split at hp
    next hok =>
      cases hp
      exact ⟨hname, hurl, hok.1, hok.2, rfl⟩
    next => cases hp
  · rintro ⟨hname, hurl, hbase, hhost, hcredential⟩
    refine ⟨_, hname, _, hurl, ?_⟩
    rw [if_pos ⟨hbase, hhost⟩, ← hcredential]
    rfl

/-! ### Objects that hold a party -/

/-- What is done with the objects that hold a party. -/
inductive Use where
  /-- An object is asked for the endpoint of a repository. -/
  | ask (i : Nat) (repository : String)
  /-- A copy of an object is made, with the endpoint that the object has been given. -/
  | copy (i : Nat)
  deriving DecidableEq, Repr

/-- What an object answers, if it is asked, and the objects from then on. -/
def Use.on (objects : List Contact) : Use → Option Url × List Contact
  | ask i r => (objects[i]?.map fun c => (c.ask r).1, objects.modify i fun c => (c.ask r).2)
  | copy i => (none, objects ++ objects[i]?.toList)

/-- All answers of the objects, in order. -/
def answers (objects : List Contact) : List Use → List Url
  | [] => []
  | use :: rest => (use.on objects).1.toList ++ answers (use.on objects).2 rest

/-- The object has been asked, and keeps to its endpoint. -/
def Contact.StaysWith (c : Contact) (url : Url) : Prop := c.known = some url

theorem Contact.StaysWith.ask {c : Contact} {endpoint : Url} (h : c.StaysWith endpoint)
    (r : String) : (c.ask r).1 = endpoint ∧ (c.ask r).2.StaysWith endpoint := by
  have hanswer : (c.ask r).1 = endpoint := by
    rw [Contact.ask, h]
    rfl
  exact ⟨hanswer, congrArg some hanswer⟩

theorem Contact.StaysWith.askAll {c : Contact} {endpoint : Url} (h : c.StaysWith endpoint)
    (repositories : List String) :
    c.askAll repositories = List.replicate repositories.length endpoint := by
  induction repositories generalizing c with
  | nil => rfl
  | cons r rest ih =>
    obtain ⟨hanswer, hstays⟩ := h.ask r
    rw [Contact.askAll, hanswer, ih hstays]
    rfl

/-- No use lets an object forget its endpoint, and a copy is made with it. -/
theorem Use.on_staysWith {objects : List Contact} {endpoint : Url}
    (h : ∀ c ∈ objects, c.StaysWith endpoint) (use : Use) :
    (∀ answer ∈ (use.on objects).1, answer = endpoint) ∧
      ∀ c ∈ (use.on objects).2, c.StaysWith endpoint := by
  cases use with
  | ask i r =>
    constructor
    · intro answer hanswer
      obtain ⟨c, hc, rfl⟩ := Option.map_eq_some_iff.mp hanswer
      exact ((h c (List.mem_of_getElem? hc)).ask r).1
    · intro c hc
      obtain ⟨j, hj⟩ := List.mem_iff_getElem?.mp hc
      rw [Use.on, List.getElem?_modify, Option.map_eq_map] at hj
      obtain ⟨c', hc', rfl⟩ := Option.map_eq_some_iff.mp hj
      have hstays := h c' (List.mem_of_getElem? hc')
      split
      · exact (hstays.ask r).2
      · exact hstays
  | copy i =>
    refine ⟨nofun, fun c hc => ?_⟩
    rw [Use.on, List.mem_append, Option.mem_toList] at hc
    exact hc.elim (h c) fun hcopy => h c (List.mem_of_getElem? hcopy)

/-- Whatever is done with objects that have been asked, they keep to their endpoint. -/
theorem answers_staysWith {objects : List Contact} {endpoint : Url}
    (h : ∀ c ∈ objects, c.StaysWith endpoint) (uses : List Use) :
    ∀ answer ∈ answers objects uses, answer = endpoint := by
  induction uses generalizing objects with
  | nil => nofun
  | cons use rest ih =>
    obtain ⟨hanswer, hobjects⟩ := use.on_staysWith h
    intro answer hmem
    rw [answers, List.mem_append, Option.mem_toList] at hmem
    exact hmem.elim (hanswer answer) (ih hobjects answer)

/-- **A party is reached below its URL, unless the text of the URL has a query or a fragment.** The
endpoint that a party has for a repository is the folder of its URL followed by the namespace of the
repository and a slash. It is the URL itself followed by them exactly when the text holds no question
mark and no number sign, and then the path of the URL ends with a slash. When this repository is the
first one that is asked for, its endpoint is the answer, and so it is for every other one from then
on, given by the same object or by a copy. -/
theorem endpoint_below_url [Url.Idna] (h : of? url name credential = .ok p) (r : String) :
    (p.endpoint r).text = p.url.folder.text ++ (Namespace.ofRepository r).text ++ "/" ∧
    ((p.endpoint r).text = p.url.text ++ (Namespace.ofRepository r).text ++ "/" ↔
      '?' ∉ url.toList ∧ '#' ∉ url.toList) ∧
    ('?' ∉ url.toList → '#' ∉ url.toList → p.url.path.text.toList.getLast? = some '/') ∧
    (∀ rest, p.contact.askAll (r :: rest) = List.replicate (rest.length + 1) (p.endpoint r)) ∧
    ∀ uses, ∀ answer ∈ answers [(p.contact.ask r).2] uses, answer = p.endpoint r := by
  obtain ⟨-, hurl, hbase, hhost, -⟩ := of?_eq_ok_iff.mp h
  obtain ⟨ss, hpath⟩ : ∃ ss, p.url.path = .segments ss := by
    cases hpath : p.url.path with
    | segments ss => exact ⟨ss, rfl⟩
    | whole s => rw [Url.isBase, hpath] at hbase; cases hbase
  have hfolder : p.url.IsFolder ↔ '?' ∉ url.toList ∧ '#' ∉ url.toList := by
    rw [Url.isFolder_iff_plain (getLast?_slashedText url) hurl hhost, plain_slashedText,
      Url.plain_iff_notMem]
  have hendpoint : (p.endpoint r).text =
      p.url.folder.text ++ (Namespace.ofRepository r).text ++ "/" :=
    Url.text_resolve_folder hhost hpath _
  have hstays : (p.contact.ask r).2.StaysWith (p.endpoint r) := rfl
  refine ⟨hendpoint, ?_, fun hquery hfragment => ?_, fun rest => ?_, ?_⟩
  · rw [hendpoint, String.append_left_inj, String.append_left_inj,
      Url.text_folder_eq_iff hhost hpath, hfolder]
  · obtain ⟨ss, hss⟩ := (hfolder.mpr ⟨hquery, hfragment⟩).path
    rw [hss, Url.Path.text_concat]
    simp
  · exact congrArg (p.endpoint r :: ·) (hstays.askAll rest)
  · exact answers_staysWith (List.forall_mem_singleton.mpr hstays)

end Party

namespace Sample

/-- A party behind a port and below a path. -/
def tenant : Party :=
  ⟨⟨"t1", by decide⟩, ⟨"http", "", "", some (.name "h"), some 81, .segments ["a", ""], none, none⟩,
    none⟩

/-- A party whose URL has a query. -/
def inquirer : Party :=
  ⟨⟨"q1", by decide⟩, ⟨"http", "", "", some (.name "h"), none, .segments ["a"], some "b/", none⟩,
    none⟩

set_option maxRecDepth 8000 in
theorem of?_tenant : Party.of? "http://h:81/a" "t1" none = .ok tenant :=
  Party.of?_eq_ok_iff.mpr ⟨Name.parse?_text tenant.name, by decide, rfl, rfl, rfl⟩

set_option maxRecDepth 8000 in
theorem of?_inquirer : Party.of? "http://h/a?b" "q1" none = .ok inquirer :=
  Party.of?_eq_ok_iff.mpr ⟨Name.parse?_text inquirer.name, by decide, rfl, rfl, rfl⟩

end Sample

namespace Party

/-- The endpoint lies below the URL. -/
theorem endpoint_below_folder : of? "http://h:81/a" "t1" none = .ok Sample.tenant ∧
    (Sample.tenant.endpoint "r").text =
      Sample.tenant.url.text ++ (Namespace.ofRepository "r").text ++ "/" :=
  ⟨Sample.of?_tenant,
    (endpoint_below_url Sample.of?_tenant "r").2.1.mpr ⟨by decide, by decide⟩⟩

/-- The slash ends the query, and the endpoint lies next to the URL instead of below it. -/
theorem endpoint_beside_query : of? "http://h/a?b" "q1" none = .ok Sample.inquirer ∧
    Sample.inquirer.url.path.text.toList.getLast? ≠ some '/' ∧
    (Sample.inquirer.endpoint "r").text ≠
      Sample.inquirer.url.text ++ (Namespace.ofRepository "r").text ++ "/" := by
  refine ⟨Sample.of?_inquirer, by decide, fun h => ?_⟩
  have hpath : Sample.inquirer.url.path = .segments ["a"] := rfl
  rw [endpoint, Url.text_resolve_folder rfl hpath, String.append_left_inj,
    String.append_left_inj] at h
  have hfolder := (Url.text_folder_eq_iff rfl hpath).mp h
  cases hfolder.query

end Party

end NodeLending
