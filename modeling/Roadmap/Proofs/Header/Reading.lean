import Mathlib.Data.List.Induction
import Roadmap.Proofs.Entries
import Roadmap.Proofs.Header.RoundTrip

namespace Roadmap

open Text

namespace Header

namespace Value

def codes : List (Char × Char) := [('n', '\n'), ('r', '\r'), ('"', '"'), ('\\', '\\')]

/-- What a text between double quotes stands for. A backslash that begins no code stands for
itself. -/
inductive Decodes : List Char → List Char → Prop where
  | done : Decodes [] []
  | plain {c : Char} {rest value : List Char} (other : c ≠ '\\') (later : Decodes rest value) :
      Decodes (c :: rest) (c :: value)
  | code {letter c : Char} {rest value : List Char} (known : (letter, c) ∈ codes)
      (later : Decodes rest value) : Decodes ('\\' :: letter :: rest) (c :: value)
  | unknown {letter : Char} {rest value : List Char} (unknown : letter ∉ codes.map Prod.fst)
      (later : Decodes rest value) :
      Decodes ('\\' :: letter :: rest) ('\\' :: letter :: value)
  | last : Decodes ['\\'] ['\\']

inductive Means : List Char → List Char → Prop where
  | double {inner value : List Char} (decodes : Decodes inner value) :
      Means ('"' :: (inner ++ ['"'])) value
  | single {inner : List Char} : Means ('\'' :: (inner ++ ['\''])) inner
  | bare {text : List Char}
      (unquoted : ∀ mark ∈ ['"', '\''], ∀ inner, text ≠ mark :: (inner ++ [mark])) :
      Means text text

theorem decodes_unescape (text : List Char) : Decodes text (unescape text) := by
  fun_induction unescape text with
  | case1 => exact .done
  | case2 rest ih => exact .code (by simp [codes]) ih
  | case3 rest ih => exact .code (by simp [codes]) ih
  | case4 rest ih => exact .code (by simp [codes]) ih
  | case5 rest ih => exact .code (by simp [codes]) ih
  | case6 c rest feed return_ quote backslash ih =>
    exact .unknown (by simp_all [codes]) ih
  | case7 c rest _ _ _ _ others ih =>
    by_cases backslash : c = '\\'
    · cases rest with
      | nil =>
        subst backslash
        exact .last
      | cons d rest => exact absurd rfl (others d rest backslash)
    · exact .plain backslash ih

theorem unescape_eq_of_decodes {text value : List Char} (decodes : Decodes text value) :
    unescape text = value := by
  induction decodes with
  | done => rfl
  | plain other later ih => rw [unescape_of_ne other, ih]
  | code known later ih =>
    simp only [codes, List.mem_cons, Prod.mk.injEq, List.not_mem_nil, or_false] at known
    rcases known with ⟨rfl, rfl⟩ | ⟨rfl, rfl⟩ | ⟨rfl, rfl⟩ | ⟨rfl, rfl⟩ <;> rw [unescape, ih]
  | unknown unknown later ih =>
    simp only [codes, List.map_cons, List.map_nil, List.mem_cons, List.not_mem_nil, or_false,
      not_or] at unknown
    simp [unescape, unknown, ih]
  | last => rfl

theorem between?_eq_some_iff {mark : Char} {text inner : List Char} :
    between? mark text = some inner ↔ text = mark :: (inner ++ [mark]) := by
  constructor
  · intro found
    cases text with
    | nil => cases found
    | cons c rest =>
      simp only [between?] at found
      split at found
      · next ends =>
        obtain ⟨front, rfl⟩ := List.getLast?_eq_some_iff.1 ends.2
        rw [List.dropLast_concat] at found
        cases found
        rw [ends.1]
      · cases found
  · rintro rfl
    exact between?_append mark inner

theorem means_iff {text value : List Char} : Means text value ↔ read text = value := by
  constructor
  · rintro (decodes | _ | unquoted)
    · rw [read, between?_eq_some_iff.2 rfl]
      exact unescape_eq_of_decodes decodes
    · rw [read, between?_eq_none (by simp), between?_eq_some_iff.2 rfl]
      rfl
    · have none : ∀ mark ∈ ['"', '\''], between? mark text = none := fun mark quote =>
        Option.eq_none_iff_forall_ne_some.2 fun inner found =>
          unquoted mark quote inner (between?_eq_some_iff.1 found)
      rw [read, none '"' (by simp), none '\'' (by simp)]
      rfl
  · rintro rfl
    unfold read
    cases double : between? '"' text with
    | some inner =>
      rw [between?_eq_some_iff.1 double]
      exact .double (decodes_unescape inner)
    | none =>
      cases single : between? '\'' text with
      | some inner =>
        rw [between?_eq_some_iff.1 single]
        exact .single
      | none =>
        refine .bare fun mark quote inner same => ?_
        have found := between?_eq_some_iff.2 same
        simp only [List.mem_cons, List.not_mem_nil, or_false] at quote
        rcases quote with rfl | rfl
        · rw [found] at double; cases double
        · rw [found] at single; cases single

end Value

def Gives (line : List Char) (field : String × String) : Prop :=
  ∃ before after, trim line = before ++ ':' :: after ∧ ':' ∉ before ∧
    field.1 = String.ofList (trim before) ∧ Value.Means (trim after) field.2.toList

def lastValue? (fields : List (String × String)) (key : String) : Option String :=
  fields.reverse.lookup key

/-- What a value that is given to a key leaves there: nothing, if it is empty and the key is known
and not that of the name. -/
def kept? (key value : String) : Option String :=
  if value = "" ∧ key ∈ knownKeys ∧ key ≠ "name" then none else some value

/-- The header has what is given to each key last, and the other keys in the order in which they
first occur. -/
structure Tells (fields : List (String × String)) (h : Header) : Prop where
  named : h.name ≠ ""
  values : ∀ key, h.get? key = (lastValue? fields key).bind (kept? key)
  others : h.extra.entries.map Prod.fst =
    ((fields.map Prod.fst).filter (· ∉ knownKeys)).eraseDups

theorem lastValue?_concat (fields : List (String × String)) (field : String × String)
    (key : String) :
    lastValue? (fields ++ [field]) key =
      if key = field.1 then some field.2 else lastValue? fields key := by
  rw [lastValue?, List.reverse_append, List.reverse_singleton, List.singleton_append,
    lookup_cons_eq]
  rfl

theorem get?_set (h : Header) (key value other : String) :
    (h.set key value).get? other = if other = key then kept? key value else h.get? other := by
  grind [set, get?, kept?, nonEmpty?, knownKeys, Fields.get?_insert]

theorem keys_set (h : Header) (key value : String) :
    (h.set key value).extra.entries.map Prod.fst =
      if key ∈ knownKeys ∨ key ∈ h.extra.entries.map Prod.fst then h.extra.entries.map Prod.fst
      else h.extra.entries.map Prod.fst ++ [key] := by
  by_cases known : key ∈ knownKeys
  · rw [if_pos (.inl known)]
    simp only [knownKeys, List.mem_cons, List.not_mem_nil, or_false] at known
    rcases known with rfl | rfl | rfl | rfl <;> rfl
  · have put : (h.set key value).extra = h.extra.insert key value := by
      simp only [knownKeys, List.mem_cons, List.not_mem_nil, or_false, not_or] at known
      simp [set, known]
    simp only [put, Fields.insert, keys_putEntry, known, false_or]

theorem eraseDups_concat {α : Type} [DecidableEq α] (items : List α) (item : α) :
    (items ++ [item]).eraseDups =
      if item ∈ items then items.eraseDups else items.eraseDups ++ [item] := by
  rw [List.eraseDups_append]
  by_cases member : item ∈ items
  · simp [List.removeAll, member]
  · simp [List.removeAll, List.eraseDups_cons, member]

theorem get?_setAll (fields : List (String × String)) (key : String) :
    ((named "").setAll fields).get? key =
      match lastValue? fields key with
      | none => (named "").get? key
      | some value => kept? key value := by
  -- What is set last counts, so the induction takes fields off from the end.
  induction fields using List.reverseRecOn with
  | nil => rfl
  | append_singleton fields field ih =>
    rw [setAll_append, setAll_cons, setAll_nil, get?_set, lastValue?_concat, ih]
    by_cases same : key = field.1
    · simp [same]
    · simp [same]

theorem keys_setAll (fields : List (String × String)) :
    ((named "").setAll fields).extra.entries.map Prod.fst =
      ((fields.map Prod.fst).filter (· ∉ knownKeys)).eraseDups := by
  induction fields using List.reverseRecOn with
  | nil => rfl
  | append_singleton fields field ih =>
    rw [setAll_append, setAll_cons, setAll_nil, keys_set, ih, List.map_append, List.filter_append]
    by_cases known : field.1 ∈ knownKeys
    · simp [known]
    · have single : ([field].map Prod.fst).filter (· ∉ knownKeys) = [field.1] := by simp [known]
      rw [single, eraseDups_concat]
      simp only [List.mem_eraseDups, known, false_or]

theorem get?_setAll_of_named {fields : List (String × String)} {name : String}
    (given : lastValue? fields "name" = some name) (key : String) :
    ((named "").setAll fields).get? key = (lastValue? fields key).bind (kept? key) := by
  rw [get?_setAll]
  cases last : lastValue? fields key with
  | some value => rfl
  | none =>
    -- An unset header has a value for its name only, and that is set.
    have other : key ≠ "name" := by
      rintro rfl
      rw [given] at last
      cases last
    have empty : (∅ : Fields).get? key = none := rfl
    simp [get?, named, other, empty]

theorem name_setAll (fields : List (String × String)) :
    ((named "").setAll fields).name = (lastValue? fields "name").getD "" := by
  have value := get?_setAll fields "name"
  cases last : lastValue? fields "name" with
  | none => simpa [last, get?, named] using value
  | some name => simpa [last, get?, kept?] using value

theorem tells_setAll {fields : List (String × String)}
    (nonempty : ((named "").setAll fields).name ≠ "") : Tells fields ((named "").setAll fields) := by
  refine ⟨nonempty, fun key => ?_, keys_setAll fields⟩
  rw [name_setAll] at nonempty
  cases given : lastValue? fields "name" with
  | none => rw [given] at nonempty; exact absurd rfl nonempty
  | some name => exact get?_setAll_of_named given key

end Header

theorem Fields.ext_get? {a b : Fields} (keys : a.entries.map Prod.fst = b.entries.map Prod.fst)
    (values : ∀ key ∈ a.entries.map Prod.fst, a.get? key = b.get? key) : a = b := by
  have told : ∀ fields : Fields, fields.entries =
      (fields.entries.map Prod.fst).map fun key => (key, (fields.get? key).getD "") := by
    intro fields
    rw [List.map_map]
    refine (List.map_id _).symm.trans (List.map_congr_left fun entry member => ?_)
    have found : fields.get? entry.1 = some entry.2 := lookup_of_mem fields.distinct member
    simp [found]
  have same : a.entries = b.entries := by
    rw [told a, told b, ← keys]
    exact List.map_congr_left fun key member => by rw [values key member]
  cases a
  exact (Fields.mk.injEq ..).mpr same

namespace Header

theorem Tells.name_eq {fields : List (String × String)} {h : Header} (tells : Tells fields h) :
    lastValue? fields "name" = some h.name := by
  have value := tells.values "name"
  cases last : lastValue? fields "name" with
  | none => simp [last, get?] at value
  | some name => simpa [last, get?, kept?] using value.symm

theorem Tells.unique {fields : List (String × String)} {g h : Header} (tells : Tells fields g)
    (tells' : Tells fields h) : g = h := by
  have same : ∀ key, g.get? key = h.get? key := fun key => by rw [tells.values, tells'.values]
  have name := same "name"
  have gist := same "gist"
  have description := same "description"
  have createdAt := same "createdAt"
  have extra : g.extra = h.extra := by
    refine Fields.ext_get? (tells.others.trans tells'.others.symm) fun key member => ?_
    rw [tells.others, List.mem_eraseDups, List.mem_filter] at member
    have other := member.2
    simp only [knownKeys, List.mem_cons, List.not_mem_nil, or_false, not_or,
      decide_eq_true_eq] at other
    simpa [get?, other] using same key
  cases g
  simp_all [get?]

end Header

namespace Document

open Header

theorem field?_eq_some_iff {line : List Char} {field : String × String} :
    field? line = some field ↔ Gives line field := by
  constructor
  · intro read
    obtain ⟨⟨before, after⟩, found, rfl⟩ := Option.map_eq_some_iff.1 read
    obtain ⟨whole, absent⟩ := eq_append_of_cut found
    exact ⟨before, after, whole, absent, rfl, Value.means_iff.2 (String.toList_ofList).symm⟩
  · rintro ⟨before, after, whole, absent, key, means⟩
    rw [field?, whole, cut_append absent]
    simp only [Option.map_some, Value.means_iff.1 means, String.ofList_toList, ← key]

theorem field?_of_not_mem {line : List Char} (absent : ':' ∉ line) : field? line = none := by
  have uncut : cut ':' (trim line) = none :=
    cut_eq_none_iff.2 fun member => absent (mem_of_mem_trim member)
  rw [field?, uncut]
  rfl

def Divided (text : String) (before : List (List Char)) (after : String) : Prop :=
  ∃ line, text.toList = before.flatten ++ line ++ after.toList ∧
    (∀ other ∈ before, Closed other ∧ trim other ≠ delimiter) ∧
    trim line = delimiter ∧ (Closed line ∨ '\n' ∉ line ∧ after = "")

/-- What a text reads as. It has a header if it is divided and a name is given last that is not
empty; otherwise it is all content. -/
inductive Reads (text : String) : Document → Prop where
  | headed {lines : List (List Char)} {fields : List (String × String)} {h : Header}
      {content : String} (divided : Divided text lines content)
      (gives : Selects Gives lines fields) (tells : Tells fields h) :
      Reads text ⟨some h, content⟩
  | bare (headless : ∀ lines content fields name, Divided text lines content →
        Selects Gives lines fields → lastValue? fields "name" = some name → name = "") :
      Reads text ⟨none, text⟩

theorem divided_iff {text : String} {before : List (List Char)} {content : String} :
    Divided text before content ↔
      ∃ after, cutLines (lines text.toList) = some (before, after) ∧
        content = String.ofList after.flatten := by
  constructor
  · rintro ⟨line, whole, others, ending, closed⟩
    refine ⟨lines content.toList, ?_, by rw [flatten_lines, String.ofList_toList]⟩
    -- The delimiter is a line of its own: its line feed ends it, or the text does.
    have first : lines (line ++ content.toList) = line :: lines content.toList := by
      rcases closed with ⟨front, absent, rfl⟩ | ⟨absent, rfl⟩
      · rw [List.append_assoc, List.singleton_append, lines_append absent]
      · have nonempty : line ≠ [] := by rintro rfl; cases ending
        simpa [lines] using lines_of_not_mem nonempty absent
    rw [cutLines_eq_some_iff]
    refine ⟨line, ?_, decide_eq_true ending,
      fun other member => decide_eq_false (others other member).2⟩
    rw [whole, List.append_assoc, lines_flatten_append fun other member => (others other member).1,
      first]
  · rintro ⟨after, found, rfl⟩
    obtain ⟨line, whole, ending, others⟩ := cutLines_eq_some_iff.1 found
    obtain ⟨closed, last⟩ := (whole ▸ lined_lines text.toList).parts
    refine ⟨line, ?_, fun other member => ⟨closed other member, ?_⟩, of_decide_eq_true ending, ?_⟩
    · have together := flatten_lines text.toList
      rw [whole] at together
      simpa using together.symm
    · exact of_decide_eq_false (others other member)
    · exact last.imp_right fun single => ⟨single.1, by rw [single.2]; rfl⟩

theorem parse_of_cutLines {text : String} {before after : List (List Char)}
    (found : cutLines (lines text.toList) = some (before, after)) :
    parse text =
      if ((named "").setAll (before.filterMap field?)).name = "" then ⟨none, text⟩
      else ⟨some ((named "").setAll (before.filterMap field?)), String.ofList after.flatten⟩ := by
  have header : header? before =
      if ((named "").setAll (before.filterMap field?)).name = "" then none
      else some ((named "").setAll (before.filterMap field?)) := rfl
  rw [parse, found]
  simp only [Option.bind_eq_bind, Option.bind_some, header]
  by_cases unnamed : ((named "").setAll (before.filterMap field?)).name = ""
  · simp [unnamed]
  · simp [unnamed]

theorem gives_iff {lines : List (List Char)} {fields : List (String × String)} :
    Selects Gives lines fields ↔ fields = lines.filterMap field? :=
  selects_iff fun _ _ => field?_eq_some_iff

theorem reads_parse (text : String) : Reads text (parse text) := by
  cases found : cutLines (lines text.toList) with
  | none =>
    rw [parse_of_uncut found]
    refine .bare fun lines content fields name divided => ?_
    obtain ⟨after, cut, -⟩ := divided_iff.1 divided
    rw [found] at cut
    cases cut
  | some parts =>
    obtain ⟨before, after⟩ := parts
    rw [parse_of_cutLines found]
    split
    · next unnamed =>
      refine .bare fun lines content fields name divided gives given => ?_
      obtain ⟨after', cut, -⟩ := divided_iff.1 divided
      rw [found] at cut
      cases cut
      rwa [name_setAll, ← gives_iff.1 gives, given] at unnamed
    · next named =>
      exact .headed (divided_iff.2 ⟨after, found, rfl⟩) (gives_iff.2 rfl) (tells_setAll named)

theorem parse_eq_of_reads {text : String} {document : Document} (reads : Reads text document) :
    parse text = document := by
  cases reads with
  | @headed before fields h content divided gives tells =>
    obtain ⟨after, found, rfl⟩ := divided_iff.1 divided
    have named : ((Header.named "").setAll fields).name ≠ "" := by
      rw [name_setAll, tells.name_eq]
      exact tells.named
    rw [parse_of_cutLines found, ← gives_iff.1 gives, if_neg named,
      (tells_setAll named).unique tells]
  | bare headless =>
    cases found : cutLines (lines text.toList) with
    | none => exact parse_of_uncut found
    | some parts =>
      rw [parse_of_cutLines found, if_pos]
      rw [name_setAll]
      cases given : lastValue? (parts.1.filterMap field?) "name" with
      | none => rfl
      | some name =>
        exact headless _ _ _ name (divided_iff.2 ⟨parts.2, found, rfl⟩) (gives_iff.2 rfl) given

theorem cutLines_below {front : List (List Char)}
    (above : ∀ line ∈ front, Closed line ∧ trim line ≠ delimiter) (rest : List Char) :
    cutLines (lines (String.ofList (front.flatten ++ rest)).toList) =
      (cutLines (lines rest)).map fun (before, after) => (front ++ before, after) := by
  rw [String.toList_ofList, lines_flatten_append fun line member => (above line member).1]
  exact cutLines_append_of_not (fun line member => decide_eq_false (above line member).2) _

def headed? (document : Document) : Option (Header × String) :=
  document.header.map (·, document.content)

theorem headed?_parse {front : List (List Char)}
    (above : ∀ line ∈ front, Closed line ∧ trim line ≠ delimiter) (rest : List Char) :
    (parse (String.ofList (front.flatten ++ rest))).headed? =
      (parse (String.ofList ((front.filter (':' ∈ ·)).flatten ++ rest))).headed? := by
  have fewer : ∀ line ∈ front.filter (':' ∈ ·), Closed line ∧ trim line ≠ delimiter :=
    fun line member => above line (List.mem_of_mem_filter member)
  have all := cutLines_below above rest
  have some := cutLines_below fewer rest
  cases found : cutLines (lines rest) with
  | none =>
    rw [found] at all some
    rw [parse_of_uncut all, parse_of_uncut some]
    rfl
  | some parts =>
    rw [found] at all some
    have same : (front.filter (':' ∈ ·)).filterMap field? = front.filterMap field? := by
      rw [List.filterMap_filter]
      refine List.filterMap_congr fun line _ => ?_
      by_cases colon : ':' ∈ line
      · simp [colon]
      · simp [colon, field?_of_not_mem colon]
    rw [parse_of_cutLines all, parse_of_cutLines some, List.filterMap_append,
      List.filterMap_append, same]
    split <;> rfl

/-- Reading gives exactly what a text reads as. Above the delimiter, lines without a colon have no
effect. -/
theorem parse_eq_iff_reads (text : String) :
    (∀ document, parse text = document ↔ Reads text document) ∧
      ∀ (front : List (List Char)) (rest : List Char),
        (∀ line ∈ front, Closed line ∧ trim line ≠ delimiter) →
        text = String.ofList (front.flatten ++ rest) →
        (parse text).headed? =
          (parse (String.ofList ((front.filter (':' ∈ ·)).flatten ++ rest))).headed? := by
  constructor
  · intro document
    constructor
    · rintro rfl
      exact reads_parse text
    · exact parse_eq_of_reads
  · rintro front rest above rfl
    exact headed?_parse above rest

def motleyLines : List (List Char) :=
  ["gist: a\n".toList, "team: 'x'\n".toList, " name : \"Q\\n1\"\n".toList, "gist:\n".toList,
    "team:\n".toList, "plain text\n".toList]

def motley : String := String.ofList (motleyLines.flatten ++ "\t--- \nname: body\n---".toList)

theorem parse_motley :
    Reads motley
        ⟨some ⟨"Q\n1", none, none, none, ⟨[("team", "")], by decide⟩⟩, "name: body\n---"⟩ ∧
      (∀ line ∈ motleyLines, Closed line ∧ trim line ≠ delimiter) ∧
      (parse (String.ofList ((motleyLines.filter (':' ∈ ·)).flatten ++
          "\t--- \nname: body\n---".toList))).headed? =
        some (⟨"Q\n1", none, none, none, ⟨[("team", "")], by decide⟩⟩, "name: body\n---") := by
  have read : parse motley =
      ⟨some ⟨"Q\n1", none, none, none, ⟨[("team", "")], by decide⟩⟩, "name: body\n---"⟩ := by
    decide +kernel
  have above : ∀ line ∈ motleyLines, Closed line ∧ trim line ≠ delimiter := by
    intro line member
    have closed : line = line.dropLast ++ ['\n'] ∧ '\n' ∉ line.dropLast := by
      revert line
      decide
    exact ⟨⟨line.dropLast, closed.2, closed.1⟩, by revert line; decide⟩
  obtain ⟨reads, colonless⟩ := parse_eq_iff_reads motley
  have same := colonless motleyLines "\t--- \nname: body\n---".toList above rfl
  rw [read] at same
  exact ⟨(reads _).1 read, above, same.symm⟩

end Document

end Roadmap
