import NodeLending.Proofs.Repository.Validation
import NodeLending.Proofs.Text.Cutting
import NodeLending.Proofs.Text.Trimming
import NodeLending.Repository.Draft

/-!
# How properties are written

A line gives a key its value. It may be written with either separator, and with blanks around the
key and the value; between such lines there may be others that say nothing, and each line may end
with a carriage return. Nothing of this counts when the properties are read: a text says exactly
the entries that its lines are written for, and of several entries for a key the last one.

A draft of a repository writes the properties in the plainest of these ways.

## Main definitions

* `Properties.Writable`: the entries that a line can say.
* `Properties.Line`, `Properties.Spells`: the ways to write an entry and a list of entries.

## Main results

* `Properties.Line.read_eq`, `Properties.Spells.parse_eq`: what is written is read.
* `Properties.spells_print`: the properties of a draft are among the ways to write them.
* `Snapshot.read_withConfig`: what is read of a draft, and of its properties written in another way.
-/

namespace NodeLending

open Repository

namespace Properties

/-- An entry that a line can say: neither part has a blank at its ends or a line feed in it, and the
key holds no separator and does not look like the start of a remark. -/
structure Writable (e : String × String) : Prop where
  key_trimmed : Text.trim e.1 = e.1
  key_plain : ∀ c ∈ e.1.toList, c ≠ '\n' ∧ c ≠ '=' ∧ c ≠ ':'
  key_start : ∀ c ∈ e.1.toList.head?, c ≠ '#' ∧ c ≠ '!'
  value_trimmed : Text.trim e.2 = e.2
  value_plain : '\n' ∉ e.2.toList

theorem writable_iff {e : String × String} : Writable e ↔
    Text.trim e.1 = e.1 ∧
      e.1.toList.all (fun c => decide (c ≠ '\n' ∧ c ≠ '=' ∧ c ≠ ':')) = true ∧
      e.1.toList.head?.all (fun c => decide (c ≠ '#' ∧ c ≠ '!')) = true ∧
      Text.trim e.2 = e.2 ∧ '\n' ∉ e.2.toList := by
  simp only [List.all_eq_true, Option.all_eq_true, decide_eq_true_eq]
  exact ⟨fun ⟨h₁, h₂, h₃, h₄, h₅⟩ => ⟨h₁, h₂, h₃, h₄, h₅⟩,
    fun ⟨h₁, h₂, h₃, h₄, h₅⟩ => ⟨h₁, h₂, h₃, h₄, h₅⟩⟩

instance (e : String × String) : Decidable (Writable e) := decidable_of_iff' _ writable_iff

/-- What a line says, if anything, and how it is written. -/
inductive Line : Option (String × String) → List Char → Prop
  /-- A blank line says nothing. -/
  | blank {cs : List Char} (h : ∀ c ∈ cs, Text.isBlank c = true) : Line none cs
  /-- Neither does a remark. -/
  | remark (lead : List Char) (hlead : ∀ c ∈ lead, Text.isBlank c = true) {mark : Char}
    (hmark : mark = '#' ∨ mark = '!') (cs : List Char) : Line none (lead ++ mark :: cs)
  /-- A key, a separator and a value, with blanks around the three. -/
  | entry (e : String × String) (b₁ b₂ b₃ b₄ : List Char)
    (hblank : ∀ c ∈ b₁ ++ b₂ ++ b₃ ++ b₄, Text.isBlank c = true) {separator : Char}
    (hseparator : separator = '=' ∨ separator = ':') :
    Line (some e) (b₁ ++ e.1.toList ++ b₂ ++ separator :: (b₃ ++ e.2.toList ++ b₄))

/-- A text says entries line by line. -/
inductive Spells : List (String × String) → List Char → Prop
  /-- The last line need not be ended. -/
  | last {said : Option (String × String)} {cs : List Char} (h : Line said cs) (hline : '\n' ∉ cs) :
    Spells said.toList cs
  /-- A line is ended in one of two ways. -/
  | line {said : Option (String × String)} {cs ending rest : List Char}
    {entries : List (String × String)} (h : Line said cs) (hline : '\n' ∉ cs)
    (hending : ending = ['\n'] ∨ ending = ['\r', '\n']) (hrest : Spells entries rest) :
    Spells (said.toList ++ entries) (cs ++ ending ++ rest)

/-! ### Lines -/

variable {e : String × String} {said : Option (String × String)} {cs : List Char}

theorem trimChars_of_trim {s : String} (h : Text.trim s = s) :
    Text.trimChars s.toList = s.toList := by
  have hchars := congrArg String.toList h
  rwa [Text.trim, String.toList_ofList] at hchars

/-- Blanks around a line do not count. -/
theorem read_padded {lead tail : List Char} (hlead : ∀ c ∈ lead, Text.isBlank c = true)
    (htail : ∀ c ∈ tail, Text.isBlank c = true) (cs : List Char) :
    entry? (lead ++ cs ++ tail) = entry? cs := by
  unfold entry?
  rw [Text.trimChars_padded hlead htail]

/-- No separator is a blank. -/
theorem isSeparator_of_isBlank {c : Char} (h : Text.isBlank c = true) : isSeparator c = false := by
  have hne : ∀ {d : Char}, Text.isBlank d = false → (c == d) = false :=
    fun hd => beq_false_of_ne fun heq => by simp [heq, hd] at h
  rw [isSeparator, hne (by decide), hne (by decide)]
  rfl

/-- In front of the separator a line starts like its key, or there is nothing but blanks. -/
theorem Writable.isSilent_eq_false (h : Writable e) {b₁ b₂ rest : List Char}
    (h₁ : ∀ c ∈ b₁, Text.isBlank c = true) (h₂ : ∀ c ∈ b₂, Text.isBlank c = true)
    {separator : Char} (hseparator : separator = '=' ∨ separator = ':') :
    isSilent (Text.trimLeft (b₁ ++ e.1.toList ++ b₂) ++ separator :: rest) = false := by
  have hkey := Text.trimLeft_of_trimChars (trimChars_of_trim h.key_trimmed)
  rw [List.append_assoc, Text.trimLeft_append_blank h₁, Text.trimLeft_blank_append h₂, hkey]
  have hstart := h.key_start
  cases hchars : e.1.toList with
  | nil => rcases hseparator with rfl | rfl <;> rfl
  | cons c cs =>
    rw [hchars] at hstart
    obtain ⟨hnumber, hmark⟩ := hstart c rfl
    simp [isSilent, hnumber, hmark]

/-- A line that is written for an entry is read as the entry. -/
theorem Writable.read_eq (h : Writable e) {b₁ b₂ b₃ b₄ : List Char}
    (hblank : ∀ c ∈ b₁ ++ b₂ ++ b₃ ++ b₄, Text.isBlank c = true) {separator : Char}
    (hseparator : separator = '=' ∨ separator = ':') :
    entry? (b₁ ++ e.1.toList ++ b₂ ++ separator :: (b₃ ++ e.2.toList ++ b₄)) = some e := by
  simp only [List.mem_append, or_imp, forall_and] at hblank
  obtain ⟨⟨⟨h₁, h₂⟩, h₃⟩, h₄⟩ := hblank
  have hsharp : isSeparator separator = true ∧ Text.isBlank separator = false := by
    rcases hseparator with rfl | rfl <;> decide
  have hfront : ∀ c ∈ Text.trimLeft (b₁ ++ e.1.toList ++ b₂), isSeparator c = false := by
    intro c hc
    have hmem := (List.dropWhile_suffix Text.isBlank).mem hc
    simp only [List.mem_append] at hmem
    rcases hmem with (hmem | hmem) | hmem
    · exact isSeparator_of_isBlank (h₁ c hmem)
    · obtain ⟨-, hequals, hcolon⟩ := h.key_plain c hmem
      simp [isSeparator, hequals, hcolon]
    · exact isSeparator_of_isBlank (h₂ c hmem)
  unfold entry?
  rw [Text.trimChars_append_cons hsharp.2]
  simp only [h.isSilent_eq_false h₁ h₂ hseparator, Bool.false_eq_true, if_false, entry,
    Text.cutAt_append_cons hfront hsharp.1, List.tail_cons]
  rw [Text.trimChars_trimLeft, Text.trimChars_trimRight, Text.trimChars_padded h₁ h₂,
    Text.trimChars_padded h₃ h₄, trimChars_of_trim h.key_trimmed,
    trimChars_of_trim h.value_trimmed, String.ofList_toList, String.ofList_toList]

/-- What a line is written for is read. -/
theorem Line.read_eq (h : Line said cs) (hsaid : ∀ e ∈ said, Writable e) : entry? cs = said := by
  cases h with
  | blank h =>
    unfold entry?
    rw [Text.trimChars_of_blank h]
    rfl
  | @remark lead hlead mark hmark rest =>
    have hmarked : Text.isBlank mark = false := by rcases hmark with rfl | rfl <;> decide
    unfold entry?
    rw [Text.trimChars_append_cons hmarked, Text.trimLeft_eq_nil_iff.mpr hlead]
    rcases hmark with rfl | rfl <;> rfl
  | entry e b₁ b₂ b₃ b₄ hblank hseparator => exact (hsaid e rfl).read_eq hblank hseparator

/-! ### Texts -/

/-- What a text is written for is read. -/
theorem Spells.filterMap_eq {entries : List (String × String)} (h : Spells entries cs)
    (hentries : ∀ e ∈ entries, Writable e) :
    (Text.splitAt (· == '\n') cs).filterMap entry? = entries := by
  have hplain : ∀ {cs : List Char}, '\n' ∉ cs → ∀ c ∈ cs, (c == '\n') = false :=
    fun hline c hc => beq_false_of_ne fun heq => hline (heq ▸ hc)
  induction h with
  | @last said cs h hline =>
    have hsaid := h.read_eq fun e he => hentries e (Option.mem_toList.mpr he)
    rw [Text.splitAt_of_forall (hplain hline), List.filterMap_cons, hsaid]
    cases said <;> rfl
  | @line said cs ending rest entries h hline hending _ ih =>
    have hsaid := h.read_eq fun e he =>
      hentries e (List.mem_append_left _ (Option.mem_toList.mpr he))
    have hlater := ih fun e he => hentries e (List.mem_append_right _ he)
    -- A carriage return is one more blank at the end of the line.
    obtain ⟨blank, hblank, hfeed, rfl⟩ : ∃ blank, (∀ c ∈ blank, Text.isBlank c = true) ∧
        '\n' ∉ blank ∧ ending = blank ++ ['\n'] := by
      rcases hending with rfl | rfl
      · exact ⟨[], List.forall_mem_nil _, by decide, rfl⟩
      · exact ⟨['\r'], List.forall_mem_singleton.mpr rfl, by decide, rfl⟩
    have hwhole : '\n' ∉ cs ++ blank := List.not_mem_append hline hfeed
    have htext : cs ++ (blank ++ ['\n']) ++ rest = cs ++ blank ++ '\n' :: rest := by simp
    have hread := read_padded (List.forall_mem_nil _) hblank cs
    rw [List.nil_append, hsaid] at hread
    rw [htext, Text.splitAt_append_cons (hplain hwhole) rfl, List.filterMap_cons, hread, hlater]
    cases said <;> rfl

/-- What a text is written for is what it says. -/
theorem Spells.parse_eq {entries : List (String × String)} {text : String}
    (h : Spells entries text.toList) (hentries : ∀ e ∈ entries, Writable e) :
    parse text = .ofList entries :=
  congrArg Keyed.ofList (h.filterMap_eq hentries)

/-! ### The plainest way -/

/-- A line of a draft is written without blanks. -/
theorem Line.plain (e : String × String) : Line (some e) (e.1.toList ++ '=' :: e.2.toList) := by
  have hline : Line (some e) ([] ++ e.1.toList ++ [] ++ '=' :: ([] ++ e.2.toList ++ [])) :=
    .entry e [] [] [] [] (List.forall_mem_nil _) (.inl rfl)
  simpa using hline

theorem Writable.plain (h : Writable e) : '\n' ∉ e.1.toList ++ '=' :: e.2.toList := by
  have hkey : '\n' ∉ e.1.toList := fun hmem => (h.key_plain _ hmem).1 rfl
  simp [hkey, h.value_plain]

theorem spells_lines {entries : List (String × String)} (h : ∀ e ∈ entries, Writable e) :
    Spells entries (String.join (entries.map line)).toList := by
  induction entries with
  | nil => exact .last (.blank (List.forall_mem_nil _)) (by decide)
  | cons e entries ih =>
    have hrest := ih fun e he => h e (List.mem_cons_of_mem _ he)
    have hspells := Spells.line (.plain e) (h e List.mem_cons_self).plain (.inl rfl) hrest
    have htext : (String.join ((e :: entries).map line)).toList =
        e.1.toList ++ '=' :: e.2.toList ++ ['\n'] ++ (String.join (entries.map line)).toList := by
      simp [String.join_cons, line]
    rw [htext]
    exact hspells

/-- The properties of a draft are written for its entries. -/
theorem spells_print {entries : List (String × String)} (h : ∀ e ∈ entries, Writable e) :
    Spells entries (print entries).toList := by
  have hremark : Line none "# node sharing pool configuration".toList :=
    .remark [] (List.forall_mem_nil _) (.inl rfl) " node sharing pool configuration".toList
  have hspells := Spells.line hremark (by decide) (.inl rfl) (spells_lines h)
  have htext : (print entries).toList =
      "# node sharing pool configuration".toList ++ ['\n'] ++
        (String.join (entries.map line)).toList := by
    rw [print, String.toList_append]
    rfl
  rw [htext]
  exact hspells

end Properties

/-! ### Drafts -/

namespace Snapshot

variable {entries : List (String × String)} {text url : String}

/-- What is read of a draft with properties that are written in one of the ways. -/
theorem read_withFile [Url.Idna] (hentries : ∀ e ∈ entries, Properties.Writable e)
    (hurl : Keyed.lookup urlKey entries.reverse = some url) (hne : url ≠ "")
    (htext : Properties.Spells entries text.toList) (d : Draft) :
    read (d.withFile configFile text) = do
      let parties ← (manifests d partiesDirectory).foldlM addParty ∅
      let nodes ← (manifests d nodesDirectory).foldlM addNode ∅
      return ⟨.ofList entries, parties, nodes⟩ := by
  have hcontent : (d.withFile configFile text).content? configFile = some text := by
    rw [FileTree.content?, Draft.withFile, Keyed.find?_insert, if_pos rfl]
  have hfind : (Keyed.ofList entries).find? urlKey = some url := by rw [Keyed.find?_ofList, hurl]
  have hconfig : readConfig (d.withFile configFile text) = .ok (.ofList entries) :=
    readConfig_eq_ok_iff.mpr
      ⟨⟨text, hcontent, htext.parse_eq hentries⟩, url, hfind, hne⟩
  rw [read, hconfig, manifests, manifests, Draft.directory_withFile (by decide),
    Draft.directory_withFile (by decide)]
  rfl

/-- **Properties are read as they were written.** Take entries that a line can say, of which the last
one for the address gives an address. For the properties that a draft writes for them:

* Of the entries for a key the last one counts, and nothing else has a value.
* The draft is read as a revision with these properties, whatever manifests it has, and a draft
  without any can be read.
* The properties may be written in any other way, with further lines that say nothing, with either
  separator, with other ends of lines and with more blanks, and the revision stays the same. -/
theorem read_withConfig [Url.Idna] (hentries : ∀ e ∈ entries, Properties.Writable e)
    (hurl : Keyed.lookup urlKey entries.reverse = some url) (hne : url ≠ "") :
    ∃ config : Keyed String String,
      (∀ key, config.find? key = Keyed.lookup key entries.reverse) ∧
      (∀ d : Draft, read (d.withConfig entries) = do
        let parties ← (manifests d partiesDirectory).foldlM addParty ∅
        let nodes ← (manifests d nodesDirectory).foldlM addNode ∅
        return ⟨config, parties, nodes⟩) ∧
      read (Draft.withConfig .empty entries) = .ok ⟨config, ∅, ∅⟩ ∧
      ∀ (d : Draft) (text : String), Properties.Spells entries text.toList →
        read (d.withFile configFile text) = read (d.withConfig entries) := by
  have hread (d : Draft) (text : String) (htext : Properties.Spells entries text.toList) :=
    read_withFile hentries hurl hne htext d
  have hprint := Properties.spells_print hentries
  refine ⟨.ofList entries, Keyed.find?_ofList entries, fun d => hread d _ hprint, ?_, ?_⟩
  · exact hread .empty _ hprint
  · exact fun d text htext => (hread d text htext).trans (hread d _ hprint).symm

end Snapshot

namespace Sample

/-- Entries with separators and marks in a value, and with two addresses. -/
def properties : List (String × String) :=
  [("orchestrator.url", "o"), ("a b", "=:#! x"), ("", ""), ("orchestrator.url", "p?#=")]

/-- The same entries among lines that say nothing. -/
def looseProperties : String :=
  " \t\r\n ! r=s\norchestrator.url:o\n\ta b =  =:#! x \r\n : \norchestrator.url=p?#="

theorem writable_properties : ∀ e ∈ properties, Properties.Writable e := by decide

open Properties in
theorem spells_looseProperties : Spells properties looseProperties.toList := by
  have hblank : Line none " \t".toList := .blank (List.all_eq_true.mp rfl)
  have hremark : Line none " ! r=s".toList :=
    .remark [' '] (List.all_eq_true.mp rfl) (.inr rfl) " r=s".toList
  have hfirst : Line (some ("orchestrator.url", "o")) "orchestrator.url:o".toList :=
    .entry ("orchestrator.url", "o") [] [] [] [] (List.forall_mem_nil _) (.inr rfl)
  have hvalue : Line (some ("a b", "=:#! x")) "\ta b =  =:#! x ".toList :=
    .entry ("a b", "=:#! x") ['\t'] [' '] [' ', ' '] [' '] (List.all_eq_true.mp rfl) (.inl rfl)
  have hempty : Line (some ("", "")) " : ".toList :=
    .entry ("", "") [' '] [] [' '] [] (List.all_eq_true.mp rfl) (.inr rfl)
  have hlast : Line (some ("orchestrator.url", "p?#=")) "orchestrator.url=p?#=".toList :=
    .plain ("orchestrator.url", "p?#=")
  exact .line hblank (by decide) (.inr rfl) (.line hremark (by decide) (.inl rfl)
    (.line hfirst (by decide) (.inl rfl) (.line hvalue (by decide) (.inr rfl)
      (.line hempty (by decide) (.inl rfl) (.last hlast (by decide))))))

end Sample

/-- The second address counts, and the other ways to write the entries change nothing. -/
theorem Snapshot.read_withConfig_loose : ∃ config : Keyed String String,
    config.find? urlKey = some "p?#=" ∧ config.find? "a b" = some "=:#! x" ∧
      config.find? "" = some "" ∧ config.find? "b" = none ∧
      read (Draft.withConfig .empty Sample.properties) = .ok ⟨config, ∅, ∅⟩ ∧
      read (Draft.withFile .empty configFile Sample.looseProperties) = .ok ⟨config, ∅, ∅⟩ := by
  have hurl : Keyed.lookup urlKey Sample.properties.reverse = some "p?#=" := by decide
  obtain ⟨config, hfind, -, hread, hother⟩ :=
    read_withConfig Sample.writable_properties hurl (by decide)
  refine ⟨config, ?_, ?_, ?_, ?_, hread, ?_⟩
  · rw [hfind, hurl]
  · rw [hfind]
    decide
  · rw [hfind]
    decide
  · rw [hfind]
    decide
  · rw [hother .empty _ Sample.spells_looseProperties, hread]

end NodeLending
