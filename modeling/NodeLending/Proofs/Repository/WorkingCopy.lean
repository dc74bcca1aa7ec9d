import NodeLending.Proofs.Decode.Reading
import NodeLending.Proofs.Repository.Validation
import NodeLending.Proofs.Text.Cutting
import NodeLending.Repository.Directory

/-!
# What a working copy is read as

A file counts when a path leads to it through directories that are not passed over. This does not
mention the stack of directories with which a working copy is read: while it is read, every such path
either has been dealt with or goes on from something that is still to be looked at. When nothing is
left to be looked at, the files that have been read are the files that count.

Listings may come in any order. Two working copies are *relisted* into one another when they differ
in the order of their listings only, at any depth, and then they are read as the same tree.

## Main definitions

* `Directory.Entry.Leads`: a path leads from an entry to another one.
* `Directory.Entry.Proper`: the names in a listing are names, and differ.
* `Directory.Entry.Relisted`: the listings come in another order.
* `Directory.Reading.Tracks`: what holds of a working copy while it is read.

## Main results

* `Directory.Reading.Tracks.visit`, `Directory.Reading.Tracks.list`: what one entry and one directory
  preserve.
* `Directory.Reading.Tracks.run`: what the whole reading comes to.
* `Directory.read_workingCopy`: what a working copy is read as.
-/

namespace NodeLending.Directory

namespace Entry

/-- A path leads from an entry to another one, through directories that are not passed over. -/
inductive Leads : Entry → List String → Entry → Prop
  | here (e : Entry) : Leads e [] e
  | into {d e target : Entry} {name : String} {path : List String}
      (listed : (name, e) ∈ d.listed) (counts : ¬(e.isDirectory = true ∧ name = passedOver))
      (leads : Leads e path target) : Leads d (name :: path) target

mutual

/-- No name is listed twice in a directory, and no name holds a slash. -/
def Proper : Entry → Prop
  | .directory entries | .broken entries _ => (entries.map Prod.fst).Nodup ∧ ProperIn entries
  | _ => True

/-- In a listing, no name holds a slash, and everything is proper further down. -/
def ProperIn : List (String × Entry) → Prop
  | [] => True
  | (name, e) :: rest => '/' ∉ name.toList ∧ Proper e ∧ ProperIn rest

end

/-- The listings of directories come in another order. -/
inductive Relisted : Entry → Entry → Prop
  | refl (e : Entry) : Relisted e e
  | trans {e₁ e₂ e₃ : Entry} (first : Relisted e₁ e₂) (second : Relisted e₂ e₃) : Relisted e₁ e₃
  | order {entries entries' : List (String × Entry)} (perm : entries.Perm entries') :
      Relisted (.directory entries) (.directory entries')
  | inside {before after : List (String × Entry)} {name : String} {e e' : Entry}
      (inner : Relisted e e') :
      Relisted (.directory (before ++ (name, e) :: after))
        (.directory (before ++ (name, e') :: after))

variable {d d' e e' target : Entry} {name : String} {path rest : List String}

/-! ### Paths -/

theorem leads_nil (h : d.Leads [] target) : d = target := by
  cases h
  rfl

theorem Leads.trans (h : d.Leads path e) (h' : e.Leads rest target) :
    d.Leads (path ++ rest) target := by
  induction h with
  | here => exact h'
  | into listed counts _ ih => exact .into listed counts (ih h')

/-- Nothing lies below an entry without a listing. -/
theorem Leads.of_listed_nil (h : d.Leads path target) (hd : d.listed = []) :
    path = [] ∧ target = d := by
  cases h with
  | here => exact ⟨rfl, rfl⟩
  | into listed => rw [hd] at listed; cases listed

theorem listed_of_not_isDirectory (h : d.isDirectory = false) : d.listed = [] := by
  match d, h with
  | .file _, _ | .link _, _ | .other, _ | .sealed false _, _ | .obscure _, _ => rfl

theorem properIn_iff {l : List (String × Entry)} :
    ProperIn l ↔ ∀ x ∈ l, '/' ∉ x.1.toList ∧ x.2.Proper := by
  induction l with
  | nil => exact iff_of_true trivial (List.forall_mem_nil _)
  | cons x l ih => simp only [ProperIn, ih, List.forall_mem_cons, and_assoc]

theorem Proper.listed (h : d.Proper) :
    (d.listed.map Prod.fst).Nodup ∧ ∀ x ∈ d.listed, '/' ∉ x.1.toList ∧ x.2.Proper := by
  have hleaf : ([].map (Prod.fst : String × Entry → String)).Nodup ∧
      ∀ x ∈ ([] : List (String × Entry)), '/' ∉ x.1.toList ∧ x.2.Proper :=
    ⟨.nil, List.forall_mem_nil _⟩
  match d, h with
  | .directory _, h | .broken _ _, h => exact ⟨h.1, properIn_iff.mp h.2⟩
  | .file _, _ | .link _, _ | .other, _ | .sealed _ _, _ | .obscure _, _ => exact hleaf

/-- There is one entry under a name. -/
theorem Proper.eq_of_listed (h : d.Proper) (he : (name, e) ∈ d.listed)
    (he' : (name, e') ∈ d.listed) : e = e' :=
  congrArg Prod.snd (List.inj_on_of_nodup_map h.listed.1 he he' rfl)

/-- A path leads to one entry. -/
theorem Leads.unique (hd : d.Proper) (h : d.Leads path e) (h' : d.Leads path e') : e = e' := by
  induction h with
  | here => exact leads_nil h'
  | into listed _ _ ih =>
    cases h' with
    | into listed' _ leads' =>
      obtain rfl := hd.eq_of_listed listed listed'
      exact ih (hd.listed.2 _ listed).2 leads'

theorem Leads.plain (hd : d.Proper) (h : d.Leads path e) : ∀ s ∈ path, '/' ∉ s.toList := by
  induction h with
  | here => exact List.forall_mem_nil _
  | into listed _ _ ih =>
    exact List.forall_mem_cons.mpr ⟨(hd.listed.2 _ listed).1, ih (hd.listed.2 _ listed).2⟩

/-- Files at different paths have different texts of their paths. -/
theorem Leads.eq_of_join (hd : d.Proper) (hdir : d.isDirectory = true) {path' : List String}
    {content content' : List UInt8} (h : d.Leads path (.file content))
    (h' : d.Leads path' (.file content')) (heq : Text.join "/" path = Text.join "/" path') :
    path = path' := by
  have hne : ∀ {p c}, d.Leads p (.file c) → p ≠ [] := by
    rintro p c hp rfl
    rw [leads_nil hp] at hdir
    cases hdir
  have hsplit : ∀ {p c}, d.Leads p (.file c) → Text.splitOn '/' (Text.join "/" p) = p :=
    fun hp => Text.splitOn_join (hne hp) (hp.plain hd)
  rw [← hsplit h, heq, hsplit h']

/-! ### Other orders -/

/-- Only directories change. -/
theorem Relisted.cases_eq (h : Relisted d d') :
    d = d' ∨ ∃ entries entries', d = .directory entries ∧ d' = .directory entries' := by
  induction h with
  | refl => exact .inl rfl
  | trans _ _ ih₁ ih₂ =>
    rcases ih₁ with rfl | ⟨entries, _, rfl, rfl⟩
    · exact ih₂
    · rcases ih₂ with rfl | ⟨_, entries', -, rfl⟩
      · exact .inr ⟨entries, _, rfl, rfl⟩
      · exact .inr ⟨entries, entries', rfl, rfl⟩
  | order | inside => exact .inr ⟨_, _, rfl, rfl⟩

theorem Relisted.symm (h : Relisted d d') : Relisted d' d := by
  induction h with
  | refl e => exact .refl e
  | trans _ _ ih₁ ih₂ => exact .trans ih₂ ih₁
  | order perm => exact .order perm.symm
  | inside _ ih => exact .inside ih

theorem Relisted.isDirectory_eq (h : Relisted d d') : d.isDirectory = d'.isDirectory := by
  rcases h.cases_eq with rfl | ⟨_, _, rfl, rfl⟩ <;> rfl

theorem Relisted.fault?_eq (h : Relisted d d') : d.fault? = d'.fault? := by
  rcases h.cases_eq with rfl | ⟨_, _, rfl, rfl⟩ <;> rfl

theorem Relisted.proper (h : Relisted d d') (hd : d.Proper) : d'.Proper := by
  induction h with
  | refl => exact hd
  | trans _ _ ih₁ ih₂ => exact ih₂ (ih₁ hd)
  | order perm =>
    refine ⟨(perm.map Prod.fst).nodup hd.1, properIn_iff.mpr fun x hx => ?_⟩
    exact properIn_iff.mp hd.2 x (perm.mem_iff.mpr hx)
  | inside _ ih =>
    obtain ⟨hnodup, hin⟩ := hd
    rw [properIn_iff, List.forall_mem_append, List.forall_mem_cons] at hin
    refine ⟨by simpa only [List.map_append, List.map_cons] using hnodup, ?_⟩
    rw [properIn_iff, List.forall_mem_append, List.forall_mem_cons]
    exact ⟨hin.1, ⟨hin.2.1.1, ih hin.2.1.2⟩, hin.2.2⟩

/-- The same paths lead to the same entries, up to the order of their listings. -/
theorem Relisted.leads (h : Relisted d d') (hpath : d.Leads path target) :
    ∃ target', d'.Leads path target' ∧ Relisted target target' := by
  induction h generalizing path target with
  | refl => exact ⟨target, hpath, .refl target⟩
  | trans _ _ ih₁ ih₂ =>
    obtain ⟨t₁, hpath₁, hrel₁⟩ := ih₁ hpath
    obtain ⟨t₂, hpath₂, hrel₂⟩ := ih₂ hpath₁
    exact ⟨t₂, hpath₂, .trans hrel₁ hrel₂⟩
  | order perm =>
    cases hpath with
    | here => exact ⟨_, .here _, .order perm⟩
    | into listed counts leads =>
      exact ⟨target, .into (perm.mem_iff.mp listed) counts leads, .refl target⟩
  | inside inner ih =>
    cases hpath with
    | here => exact ⟨_, .here _, .inside inner⟩
    | into listed counts leads =>
      rcases List.mem_append.mp listed with hx | hx
      · exact ⟨target, .into (List.mem_append_left _ hx) counts leads, .refl target⟩
      · rcases List.mem_cons.mp hx with heq | hx
        · cases heq
          obtain ⟨target', leads', hrel⟩ := ih leads
          rw [inner.isDirectory_eq] at counts
          exact ⟨target', .into (List.mem_append_right _ List.mem_cons_self) counts leads', hrel⟩
        · exact ⟨target, .into (List.mem_append_right _ (List.mem_cons_of_mem _ hx)) counts leads,
            .refl target⟩

theorem Relisted.leads_file (h : Relisted d d') {content : List UInt8} :
    d.Leads path (.file content) ↔ d'.Leads path (.file content) := by
  have hto : ∀ {a b}, Relisted a b → a.Leads path (.file content) →
      b.Leads path (.file content) := by
    intro a b hab hpath
    obtain ⟨target', hpath', hrel⟩ := hab.leads hpath
    rcases hrel.cases_eq with rfl | ⟨_, _, heq, -⟩
    · exact hpath'
    · cases heq
  exact ⟨hto h, hto h.symm⟩

/-- Whatever a path leads to can be read. -/
def Sound (d : Entry) : Prop := ∀ path e, d.Leads path e → e.fault? = none

theorem Relisted.sound (h : Relisted d d') (hd : d.Sound) : d'.Sound := by
  intro path e hpath
  obtain ⟨e', hpath', hrel⟩ := h.symm.leads hpath
  exact hrel.fault?_eq.trans (hd path e' hpath')

end Entry

namespace Reading

open Entry

/-- An error tells of something that a path leads to, and why it cannot be read. -/
def Blames (place : String) (root : Entry) (err : FetchError) : Prop :=
  ∃ path e reason, root.Leads path e ∧ e.fault? = some reason ∧
    err = .unreadable (placeText place path) reason

/-- The entries of a listing that count, with their paths. -/
def ahead (path : List String) : List (String × Entry) → List (List String × Entry)
  | [] => []
  | (name, e) :: l =>
    if e.isDirectory ∧ name = passedOver then ahead path l
    else (path ++ [name], e) :: ahead path l

/-- Nothing is wrong with the entry at a path, and if it is a file it has been read. -/
def Settled (files : FileTree) (path : List String) (e : Entry) : Prop :=
  e.fault? = none ∧ ∀ content, e = .file content →
    files.content? (Text.join "/" path) = some (Text.ofUtf8 content)

/-- While a working copy is read, there are entries that are still to be looked at and files that
have been read. -/
structure Tracks (root : Entry) (todo : List (List String × Entry)) (files : FileTree) : Prop where
  /-- A path leads to what is still to be looked at. -/
  reached : ∀ x ∈ todo, root.Leads x.1 x.2
  /-- What has been read is a file that a path leads to. -/
  read : ∀ key text, files.content? key = some text → ∃ path content,
    root.Leads path (.file content) ∧ key = Text.join "/" path ∧ text = Text.ofUtf8 content
  /-- What a path leads to is settled, or lies below something that is still to be looked at. -/
  covered : ∀ path e, root.Leads path e → Settled files path e ∨
    ∃ x ∈ todo, ∃ rest, path = x.1 ++ rest ∧ x.2.Leads rest e

variable {root d e : Entry} {place name : String} {path : List String}
  {todo todo' : List (List String × Entry)} {files : FileTree} {r r' : Reading}
  {l : List (String × Entry)}

theorem mem_ahead {x : List String × Entry} : x ∈ ahead path l ↔
    ∃ name, (name, x.2) ∈ l ∧ ¬(x.2.isDirectory = true ∧ name = passedOver) ∧
      x.1 = path ++ [name] := by
  induction l with
  | nil => exact iff_of_false List.not_mem_nil nofun
  | cons y l ih =>
    obtain ⟨name, e⟩ := y
    simp only [ahead, List.mem_cons, Prod.mk.injEq]
    split
    · next hover =>
      rw [ih]
      constructor
      · rintro ⟨s, hs, hrest⟩
        exact ⟨s, .inr hs, hrest⟩
      · rintro ⟨s, ⟨rfl, rfl⟩ | hs, hcounts, hpath⟩
        · exact absurd hover hcounts
        · exact ⟨s, hs, hcounts, hpath⟩
    · next hcounts =>
      rw [List.mem_cons, ih]
      constructor
      · rintro (rfl | ⟨s, hs, hrest⟩)
        · exact ⟨name, .inl ⟨rfl, rfl⟩, hcounts, rfl⟩
        · exact ⟨s, .inr hs, hrest⟩
      · rintro ⟨s, ⟨rfl, rfl⟩ | hs, hcounts', hpath⟩
        · exact .inl (Prod.ext hpath rfl)
        · exact .inr ⟨s, hs, hcounts', hpath⟩

theorem Tracks.start (root : Entry) : Tracks root [([], root)] .empty where
  reached := by
    rintro x hx
    rw [List.mem_singleton.mp hx]
    exact .here root
  read := nofun
  covered path e h := .inr ⟨([], root), List.mem_singleton_self _, path, rfl, h⟩

theorem Tracks.congr (h : Tracks root todo files) (hmem : ∀ x, x ∈ todo ↔ x ∈ todo') :
    Tracks root todo' files where
  reached x hx := h.reached x ((hmem x).mpr hx)
  read := h.read
  covered path e hpath := (h.covered path e hpath).imp_right fun ⟨x, hx, hrest⟩ =>
    ⟨x, (hmem x).mp hx, hrest⟩

/-- Something that is no file and can be read makes room for its listing. -/
theorem Tracks.open (h : Tracks root ((path, d) :: todo) files) (hfault : d.fault? = none)
    (hfile : ∀ content, d ≠ .file content) : Tracks root (ahead path d.listed ++ todo) files where
  reached x hx := by
    rcases List.mem_append.mp hx with hx | hx
    · obtain ⟨name, hlisted, hcounts, hpath⟩ := mem_ahead.mp hx
      rw [hpath]
      exact (h.reached _ List.mem_cons_self).trans (.into hlisted hcounts (.here _))
    · exact h.reached x (List.mem_cons_of_mem _ hx)
  read := h.read
  covered q e hq := by
    rcases h.covered q e hq with hsettled | ⟨x, hx, rest, rfl, hrest⟩
    · exact .inl hsettled
    · rcases List.mem_cons.mp hx with rfl | hx
      · cases hrest with
        | here => exact .inl ⟨hfault, fun content heq => absurd heq (hfile content)⟩
        | @into _ c _ name rest listed counts leads =>
          refine .inr ⟨(path ++ [name], c), List.mem_append_left _ ?_, rest, ?_, leads⟩
          · exact mem_ahead.mpr ⟨name, listed, counts, rfl⟩
          · rw [List.append_assoc, List.singleton_append]
      · exact .inr ⟨x, List.mem_append_right _ hx, rest, rfl, hrest⟩

/-- A file is read. -/
theorem Tracks.insert (hroot : root.Proper) (hdir : root.isDirectory = true)
    {content : List UInt8} (h : Tracks root ((path, .file content) :: todo) files) :
    Tracks root todo (files.insert (Text.join "/" path) (Text.ofUtf8 content)) := by
  have hpath : root.Leads path (.file content) := h.reached _ List.mem_cons_self
  have hfind : ∀ key, (files.insert (Text.join "/" path) (Text.ofUtf8 content)).content? key =
      if key = Text.join "/" path then some (Text.ofUtf8 content) else files.content? key :=
    fun key => Keyed.find?_insert files.files _ key _
  -- A file with the same text for its path is this file.
  have hsame : ∀ q c, root.Leads q (.file c) → Text.join "/" q = Text.join "/" path →
      c = content := by
    intro q c hq heq
    obtain rfl := hq.eq_of_join hroot hdir hpath heq
    exact Entry.file.inj (hq.unique hroot hpath)
  refine ⟨fun x hx => h.reached x (List.mem_cons_of_mem _ hx), fun key text hkey => ?_,
    fun q e hq => ?_⟩
  · rw [hfind] at hkey
    split at hkey
    · next heq => exact ⟨path, content, hpath, heq, (Option.some.inj hkey).symm⟩
    · exact h.read key text hkey
  · rcases h.covered q e hq with ⟨hfault, hread⟩ | ⟨x, hx, rest, rfl, hrest⟩
    · refine .inl ⟨hfault, fun c hc => ?_⟩
      rw [hfind]
      split
      · next heq => rw [hsame q c (hc ▸ hq) heq]
      · exact hread c hc
    · rcases List.mem_cons.mp hx with rfl | hx
      · obtain ⟨rfl, rfl⟩ := hrest.of_listed_nil rfl
        refine .inl ⟨rfl, fun c hc => ?_⟩
        rw [hfind, if_pos (congrArg _ (List.append_nil path)), Entry.file.inj hc]
      · exact .inr ⟨x, hx, rest, rfl, hrest⟩

/-! ### One entry, and one directory -/

/-- What is still to be listed are directories. -/
def Listable (r : Reading) : Prop := ∀ x ∈ r.pending, x.2.isDirectory = true

/-- What looking at one entry preserves. -/
theorem Tracks.visit (hroot : root.Proper) (hdir : root.isDirectory = true) {x : String × Entry}
    (h : Tracks root (ahead path (x :: l) ++ r.pending) r.files) (hr : r.Listable)
    (hvisit : visit place path r x = .ok r') :
    Tracks root (ahead path l ++ r'.pending) r'.files ∧ r'.Listable := by
  obtain ⟨name, e⟩ := x
  rw [Reading.visit] at hvisit
  split at hvisit
  · next hd =>
    cases hvisit
    split
    · next hname =>
      rw [ahead, if_pos ⟨hd, hname⟩] at h
      exact ⟨h, hr⟩
    · next hname =>
      rw [ahead, if_neg fun hover => hname hover.2] at h
      refine ⟨h.congr fun y => ?_, List.forall_mem_cons.mpr ⟨hd, hr⟩⟩
      exact List.perm_middle.symm.mem_iff
  · next hd =>
    rw [ahead, if_neg fun hover => hd hover.1] at h
    split at hvisit
    · next content heq =>
      obtain rfl : e = .file content := heq
      cases hvisit
      exact ⟨h.insert hroot hdir, hr⟩
    · cases hvisit
    · cases hvisit
    · next hfile hsealed hobscure =>
      cases hvisit
      have hlisted : e.listed = [] := listed_of_not_isDirectory (Bool.eq_false_iff.mpr hd)
      have hopened := h.open (d := e) ?_ hfile
      · rw [hlisted] at hopened
        exact ⟨hopened, hr⟩
      · cases e with
        | sealed d reason => exact absurd rfl (hsealed d reason)
        | broken entries reason => exact absurd rfl hd
        | obscure reason => exact absurd rfl (hobscure reason)
        | _ => rfl

theorem Tracks.foldlM_visit (hroot : root.Proper) (hdir : root.isDirectory = true)
    (h : Tracks root (ahead path l ++ r.pending) r.files) (hr : r.Listable)
    (hfold : l.foldlM (Reading.visit place path) r = .ok r') :
    Tracks root r'.pending r'.files ∧ r'.Listable := by
  induction l generalizing r with
  | nil =>
    cases hfold
    exact ⟨h, hr⟩
  | cons x l ih =>
    rw [List.foldlM_cons, bind_eq_ok_iff] at hfold
    obtain ⟨next, hvisit, hfold⟩ := hfold
    obtain ⟨hnext, hlistable⟩ := h.visit hroot hdir hr hvisit
    exact ih hnext hlistable hfold

theorem list_eq_ok_iff : list place path d r = .ok r' ↔
    d.listed.foldlM (Reading.visit place path) r = .ok r' ∧ d.fault? = none := by
  rw [list, bind_eq_ok_iff]
  constructor
  · rintro ⟨next, hfold, hnext⟩
    split at hnext
    · cases hnext
    · next hfault => cases hnext; exact ⟨hfold, hfault⟩
  · rintro ⟨hfold, hfault⟩
    exact ⟨r', hfold, by rw [hfault]; rfl⟩

/-- What listing one directory preserves. -/
theorem Tracks.list (hroot : root.Proper) (hdir : root.isDirectory = true)
    (h : Tracks root ((path, d) :: r.pending) r.files) (hd : d.isDirectory = true)
    (hr : r.Listable) (hlist : list place path d r = .ok r') :
    Tracks root r'.pending r'.files ∧ r'.Listable := by
  obtain ⟨hfold, hfault⟩ := list_eq_ok_iff.mp hlist
  have hfile : ∀ content, d ≠ .file content := by
    rintro content rfl
    cases hd
  exact (h.open hfault hfile).foldlM_visit hroot hdir hr hfold

/-- A directory that cannot be listed, or an entry of it that cannot be read, is to blame. -/
theorem blames_of_list (hpath : root.Leads path d) {err : FetchError}
    (hlist : Reading.list place path d r = .error err) : Blames place root err := by
  rw [Reading.list, bind_eq_error_iff] at hlist
  rcases hlist with hfold | ⟨next, -, hfault⟩
  · obtain ⟨before, ⟨name, e⟩, after, b, hl, -, hvisit⟩ := exists_of_foldlM_error hfold
    have hlisted : (name, e) ∈ d.listed := hl ▸ List.mem_append_right _ List.mem_cons_self
    rw [Reading.visit] at hvisit
    split at hvisit
    · cases hvisit
    · next hd =>
      have hleads : root.Leads (path ++ [name]) e :=
        hpath.trans (.into hlisted (fun h => hd h.1) (.here e))
      split at hvisit
      · cases hvisit
      · next isDirectory reason heq =>
        cases hvisit
        exact ⟨path ++ [name], e, reason, hleads, congrArg Entry.fault? heq, rfl⟩
      · next reason heq =>
        cases hvisit
        exact ⟨path ++ [name], e, reason, hleads, congrArg Entry.fault? heq, rfl⟩
      · cases hvisit
  · split at hfault
    · next reason heq =>
      cases hfault
      exact ⟨path, d, reason, hpath, heq, rfl⟩
    · cases hfault

/-! ### The whole reading -/

/-- What the whole reading comes to. -/
theorem Tracks.run (hroot : root.Proper) (hdir : root.isDirectory = true)
    (h : Tracks root r.pending r.files) (hr : r.Listable) :
    (∀ t, run place r = .ok t → Tracks root [] t) ∧
      ∀ err, run place r = .error err → Blames place root err := by
  fun_induction Reading.run place r with
  | case1 r hpending =>
    rw [hpending] at h
    exact ⟨fun t ht => Except.ok.inj ht ▸ h, nofun⟩
  | case2 r path d rest hpending err hlist =>
    rw [hpending] at h
    refine ⟨nofun, fun err' herr => ?_⟩
    rw [← Except.error.inj herr]
    exact blames_of_list (h.reached _ List.mem_cons_self) hlist
  | case3 r path d rest hpending next hlist hless ih =>
    rw [hpending] at h
    rw [Listable, hpending] at hr
    obtain ⟨hd, hrest⟩ := List.forall_mem_cons.mp hr
    obtain ⟨hnext, hlistable⟩ := Tracks.list (r := ⟨r.files, rest⟩) hroot hdir h hd hrest hlist
    exact ih hnext hlistable

end Reading

/-- The files of a tree belong to the files that a path leads to: each of the one to exactly one of the
other. The path is known by its text, and the content is read with replacement characters. -/
def Shows (root : Entry) (t : FileTree) : Prop :=
  OneToOne (fun f : List String × List UInt8 => root.Leads f.1 (.file f.2))
    (fun e : String × String => t.content? e.1 = some e.2)
    fun f e => e.1 = Text.join "/" f.1 ∧ e.2 = Text.ofUtf8 f.2

variable {root root' : Entry} {place : String} {t t' : FileTree}

theorem Shows.content?_eq_some_iff (h : Shows root t) {key text : String} :
    t.content? key = some text ↔ ∃ path content, root.Leads path (.file content) ∧
      key = Text.join "/" path ∧ text = Text.ofUtf8 content := by
  constructor
  · intro hkey
    obtain ⟨⟨path, content⟩, ⟨hpath, heq⟩, -⟩ := h.2 (key, text) hkey
    exact ⟨path, content, hpath, heq⟩
  · rintro ⟨path, content, hpath, rfl, rfl⟩
    obtain ⟨⟨key, text⟩, ⟨hkey, rfl, rfl⟩, -⟩ := h.1 (path, content) hpath
    exact hkey

/-- Trees that show the same files are the same. -/
theorem Shows.unique (h : Shows root t) (h' : Shows root' t')
    (hfiles : ∀ path content, root.Leads path (.file content) ↔ root'.Leads path (.file content)) :
    t = t' := by
  have hfind : ∀ key, t.files.find? key = t'.files.find? key := by
    refine fun key => Option.ext fun text => ?_
    refine h.content?_eq_some_iff.trans (Iff.trans ?_ h'.content?_eq_some_iff.symm)
    simp only [hfiles]
  cases t
  cases t'
  exact congrArg FileTree.mk (Keyed.ext_find? hfind)

/-- When nothing is left to be looked at, everything is settled. -/
theorem Reading.Tracks.settled (h : Tracks root [] t) {path : List String} {e : Entry}
    (hpath : root.Leads path e) : Settled t path e :=
  (h.covered path e hpath).resolve_right fun ⟨_, hx, _⟩ => List.not_mem_nil hx

theorem Reading.Tracks.shows (hproper : root.Proper) (hdir : root.isDirectory = true)
    (h : Tracks root [] t) : Shows root t := by
  constructor
  · rintro ⟨path, content⟩ hpath
    refine ⟨(_, _), ⟨(h.settled hpath).2 content rfl, rfl, rfl⟩, ?_⟩
    rintro ⟨key, text⟩ ⟨-, hkey, htext⟩
    exact Prod.ext hkey htext
  · rintro ⟨key, text⟩ hkey
    obtain ⟨path, content, hpath, rfl, rfl⟩ := h.read key text hkey
    refine ⟨(path, content), ⟨hpath, rfl, rfl⟩, ?_⟩
    rintro ⟨path', content'⟩ ⟨hpath', heq, -⟩
    obtain rfl := hpath.eq_of_join hproper hdir hpath' heq
    exact congrArg (path, ·) (Entry.file.inj (hpath'.unique hproper hpath))

theorem tracks_read (hdir : root.isDirectory = true) (hproper : root.Proper) (place : String) :
    (∀ t, read place root = .ok t → Reading.Tracks root [] t) ∧
      ∀ err, read place root = .error err → Reading.Blames place root err := by
  rw [read, if_pos hdir]
  refine Reading.Tracks.run hproper hdir (.start root) fun x hx => ?_
  rw [List.mem_singleton.mp hx]
  exact hdir

theorem exists_read_iff (hdir : root.isDirectory = true) (hproper : root.Proper) (place : String) :
    (∃ t, read place root = .ok t) ↔ root.Sound := by
  obtain ⟨htracks, hblames⟩ := tracks_read hdir hproper place
  constructor
  · rintro ⟨t, ht⟩ path e hpath
    exact ((htracks t ht).settled hpath).1
  · intro hsound
    cases hread : read place root with
    | ok t => exact ⟨t, rfl⟩
    | error err =>
      obtain ⟨path, e, reason, hpath, hfault, -⟩ := hblames err hread
      rw [hsound path e hpath] at hfault
      cases hfault

/-- **What a working copy is read as.** For every directory, in whatever order it and the
directories in it are listed, whose names are proper:

* It is read as a tree exactly when everything that a path leads to can be read.
* The tree has one file for each file that a path leads to, and no other.
* Otherwise an error tells of something that a path leads to and that cannot be read.
* In any other order of the listings it is read as the same tree, or as none either. -/
theorem read_workingCopy (hdir : root.isDirectory = true) (hproper : root.Proper) (place : String) :
    ((∃ t, read place root = .ok t) ↔ root.Sound) ∧
      (∀ t, read place root = .ok t → Shows root t) ∧
      (∀ err, read place root = .error err → Reading.Blames place root err) ∧
      ∀ root', root.Relisted root' →
        (read place root').toOption = (read place root).toOption := by
  have hshows : ∀ {d t}, d.isDirectory = true → d.Proper → read place d = .ok t → Shows d t :=
    fun hd hp ht => ((tracks_read hd hp place).1 _ ht).shows hp hd
  refine ⟨exists_read_iff hdir hproper place, fun t => hshows hdir hproper,
    (tracks_read hdir hproper place).2, fun root' hrel => ?_⟩
  have hdir' : root'.isDirectory = true := hrel.isDirectory_eq ▸ hdir
  have hproper' : root'.Proper := hrel.proper hproper
  cases hread : read place root with
  | ok t =>
    have hsound := (exists_read_iff hdir hproper place).mp ⟨t, hread⟩
    obtain ⟨t', hread'⟩ := (exists_read_iff hdir' hproper' place).mpr (hrel.sound hsound)
    have heq : t = t' := (hshows hdir hproper hread).unique (hshows hdir' hproper' hread')
      fun _ _ => hrel.leads_file
    rw [hread', heq]
  | error err =>
    cases hread' : read place root' with
    | ok t' =>
      have hsound' := (exists_read_iff hdir' hproper' place).mp ⟨t', hread'⟩
      obtain ⟨t, ht⟩ := (exists_read_iff hdir hproper place).mpr (hrel.symm.sound hsound')
      rw [hread] at ht
      cases ht
    | error err' => rfl

/-- What is listed in a directory of a working copy: a link, a file of the name that is passed over as
a directory, and a file that is no text. -/
def oddEntries : List (String × Entry) :=
  [("l", .link "../config"), (".git", .file [103]), ("a", .file [0xFF])]

/-- A working copy. -/
def oddCopy : Entry :=
  .directory [(".git", .directory [("HEAD", .file [114])]), ("nodes", .directory oddEntries)]

theorem read_workingCopy_of_odd_files : oddCopy.isDirectory = true ∧ oddCopy.Proper ∧
    ∃ t, read "r" oddCopy = .ok t ∧ Shows oddCopy t ∧
      t.files.entries = [("nodes/.git", "g"), ("nodes/a", "\uFFFD")] ∧
      (read "r" (.directory [("nodes", .directory oddEntries),
        (".git", .directory [("HEAD", .file [114])])])).toOption = some t := by
  have hproper : oddCopy.Proper := by
    simp [oddCopy, oddEntries, Entry.Proper, Entry.ProperIn]
  obtain ⟨-, hshows, -, hrelisted⟩ := read_workingCopy rfl hproper "r"
  have hread : read "r" oddCopy = .ok (.ofList [("nodes/.git", "g"), ("nodes/a", "\uFFFD")]) := by
    have hroot : Reading.list "r" [] oddCopy ⟨.empty, []⟩ =
        .ok ⟨.empty, [(["nodes"], .directory oddEntries)]⟩ := rfl
    have hnodes : Reading.list "r" ["nodes"] (.directory oddEntries) ⟨.empty, []⟩ =
        .ok ⟨.ofList [("nodes/.git", "g"), ("nodes/a", "\uFFFD")], []⟩ := rfl
    calc
      read "r" oddCopy = Reading.run "r" ⟨.empty, [([], oddCopy)]⟩ := if_pos rfl
      _ = Reading.run "r" ⟨.empty, [(["nodes"], .directory oddEntries)]⟩ := by
        rw [Reading.run_cons, hroot]
        rfl
      _ = Reading.run "r" ⟨.ofList [("nodes/.git", "g"), ("nodes/a", "\uFFFD")], []⟩ := by
        rw [Reading.run_cons, hnodes]
        rfl
      _ = .ok (.ofList [("nodes/.git", "g"), ("nodes/a", "\uFFFD")]) := Reading.run_nil _ _
  refine ⟨rfl, hproper, _, hread, hshows _ hread, by decide, ?_⟩
  rw [hrelisted _ (.order (List.Perm.swap ..)), hread]
  rfl

end NodeLending.Directory
