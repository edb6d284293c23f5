import FeatureTree.Proofs.Repeats
import FeatureTree.Proofs.Trimming
import FeatureTree.Tree.Feature

/-!
# Tag sets

A tag set keeps tags under their names, and a name is a normal form of the ways to write it. **What a
tag set holds is up to the names that its tags stand for, in their order, and not to how they were
written:** of each name it keeps the first tag, where that was written.

A scenario has its own tags beside those of its feature. Put together they are again the names of a
tag set, with the feature's in front.
-/

set_option autoImplicit false

namespace FeatureTree

/-! ## Names and spellings -/

namespace Tag

/-- A name as tags have it. -/
structure IsName (name : String) : Prop where
  sign : name.toList.head? = some '@'
  trimmed : Text.Trimmed name

/-- The spelling stands for the name: without the blanks around it, it is the name or what follows
the name's sign. -/
inductive StandsFor (spelling : String) : String → Prop
  | signed {core : String} (blanks : Text.LosesEnds spelling core)
      (sign : core.toList.head? = some '@') : StandsFor spelling core
  | unsigned {core : String} (blanks : Text.LosesEnds spelling core)
      (sign : core.toList.head? ≠ some '@') : StandsFor spelling ("@" ++ core)

/-- A spelling stands for one name. -/
theorem standsFor_iff {spelling name : String} :
    StandsFor spelling name ↔ name = normalize spelling := by
  constructor
  · intro h
    cases h with
    | signed blanks sign =>
      rw [normalize, blanks.trim_eq]
      exact (if_pos sign).symm
    | unsigned blanks sign =>
      rw [normalize, blanks.trim_eq]
      exact (if_neg sign).symm
  · intro hname
    rw [hname, normalize]
    by_cases hsign : (Text.trim spelling).toList.head? = some '@'
    · rw [if_pos hsign]
      exact .signed (Text.losesEnds_trim spelling) hsign
    · rw [if_neg hsign]
      exact .unsigned (Text.losesEnds_trim spelling) hsign

/-- What a spelling stands for is a name in any case: the sign is there or is put there, and the
blanks are gone. -/
theorem StandsFor.isName {spelling name : String} (h : StandsFor spelling name) : IsName name := by
  cases h with
  | signed blanks sign => exact ⟨sign, blanks.none⟩
  | @unsigned core blanks sign =>
    have htext : ("@" ++ core).toList = '@' :: core.toList := String.toList_append
    refine ⟨by rw [htext, List.head?_cons], ⟨?_, ?_⟩⟩
    · rw [htext, List.head?_cons]
      rintro c ⟨⟩
      decide
    -- The last character is that of the core, which is trimmed, or the sign itself if the core is
    -- empty.
    · rw [htext, List.getLast?_cons]
      cases hlast : core.toList.getLast? with
      | none =>
        rintro c ⟨⟩
        decide
      | some last =>
        rintro c ⟨⟩
        exact blanks.none.stop last hlast

theorem isName_normalize (spelling : String) : IsName (normalize spelling) :=
  (standsFor_iff.mpr rfl).isName

theorem IsName.normalize_eq {name : String} (h : IsName name) : normalize name = name := by
  rw [normalize, h.trimmed.trim_eq]
  exact if_pos h.sign

theorem name_ofSpelling (spelling : String) (location : Location) :
    (ofSpelling spelling location).name = normalize spelling := by
  rw [ofSpelling]

end Tag

/-! ## Tags as they were written -/

namespace TagSet

variable (location : Location)

/-- The tags of the node at `location`, from their spellings and places. -/
def ofWritten (written : List (String × Location)) : TagSet :=
  ofTags location (written.map fun tag => Tag.ofSpelling tag.1 tag.2)

/-- Both ways to make a tag set are one: tags of a record are on lines of their own, and plain
spellings are all at the place of the node. -/
theorem ofRaw_eq_ofWritten (raw : List RawTag) :
    ofRaw location raw =
      ofWritten location (raw.map fun tag => (tag.name, location.onLine tag.line)) := by
  rw [ofRaw, ofWritten, List.map_map]
  rfl

theorem ofSpellings_eq_ofWritten (spellings : List String) :
    ofSpellings location spellings = ofWritten location (spellings.map (·, location)) := by
  rw [ofSpellings, ofWritten, List.map_map]
  rfl

theorem tags_ofWritten (written : List (String × Location)) :
    (ofWritten location written).tags =
      firstsBy Tag.name (written.map fun tag => Tag.ofSpelling tag.1 tag.2) :=
  eraseDupsBy_eq_firstsBy Tag.name _

/-- The names of a set are the normal forms of the spellings without repeats; where the tags were
written is gone. -/
theorem names_ofWritten (written : List (String × Location)) :
    (ofWritten location written).names =
      (written.map fun tag => Tag.normalize tag.1).eraseDups := by
  simp only [names, tags_ofWritten, map_firstsBy, List.map_map, Function.comp_def,
    Tag.name_ofSpelling, eraseDups_eq_firstsBy]

theorem names_ofSpellings (spellings : List String) :
    (ofSpellings location spellings).names = (spellings.map Tag.normalize).eraseDups := by
  simp only [ofSpellings_eq_ofWritten, names_ofWritten, List.map_map, Function.comp_def]

theorem nodup_names_ofWritten (written : List (String × Location)) :
    (ofWritten location written).names.Nodup :=
  names_ofWritten location written ▸ nodup_eraseDups _

theorem mem_names_ofWritten {written : List (String × Location)} {name : String} :
    name ∈ (ofWritten location written).names ↔ ∃ tag ∈ written, Tag.normalize tag.1 = name := by
  rw [names_ofWritten, List.mem_eraseDups, List.mem_map]

theorem isName_of_mem_ofWritten {written : List (String × Location)} {name : String}
    (h : name ∈ (ofWritten location written).names) : Tag.IsName name := by
  obtain ⟨tag, -, rfl⟩ := (mem_names_ofWritten location).mp h
  exact Tag.isName_normalize tag.1

theorem contains_iff (set : TagSet) (probe : String) :
    set.contains probe = true ↔ Tag.normalize probe ∈ set.names :=
  List.contains_iff_mem

/-- Names of tags stand for themselves. -/
theorem map_normalize_of_isName {names : List String} (h : ∀ name ∈ names, Tag.IsName name) :
    names.map Tag.normalize = names :=
  (List.map_congr_left fun name hname => (h name hname).normalize_eq).trans (List.map_id names)

/-- The set holds one tag for each name that was written, the first of that name. -/
structure HoldsFirsts (set : TagSet) (written : List (String × Location)) : Prop where
  isName : ∀ name ∈ set.names, Tag.IsName name
  nodup : set.names.Nodup
  names : set.names = firstsBy id (written.map fun tag => Tag.normalize tag.1)
  tags : set.tags = firstsBy Tag.name (written.map fun tag => Tag.ofSpelling tag.1 tag.2)
  contains (probe : String) : set.contains probe = true ↔
    ∃ tag ∈ written, Tag.normalize tag.1 = Tag.normalize probe
  rebuilt (location : Location) : (ofSpellings location set.names).names = set.names

theorem holdsFirsts_ofWritten (written : List (String × Location)) :
    (ofWritten location written).HoldsFirsts written where
  isName _ := isName_of_mem_ofWritten location
  nodup := nodup_names_ofWritten location written
  names := (names_ofWritten location written).trans (eraseDups_eq_firstsBy _)
  tags := tags_ofWritten location written
  contains probe := (contains_iff _ probe).trans (mem_names_ofWritten location)
  rebuilt place := by
    rw [names_ofSpellings, map_normalize_of_isName fun _ => isName_of_mem_ofWritten location,
      eraseDups_of_nodup (nodup_names_ofWritten location written)]

/-- **What a tag set holds is independent of spelling.** It holds the first tag of each name, and a
name is a spelling without blanks around it and with its sign. Other spellings of the same names, on
whatever lines, make a set with the same names and the same answers. -/
theorem independent_of_spelling (written : List (String × Location)) :
    (ofWritten location written).HoldsFirsts written ∧
      (∀ raw : List RawTag, (ofRaw location raw).HoldsFirsts
        (raw.map fun tag => (tag.name, location.onLine tag.line))) ∧
      (∀ spellings : List String,
        (ofSpellings location spellings).HoldsFirsts (spellings.map (·, location))) ∧
      (∀ spelling name, Tag.StandsFor spelling name ↔ name = Tag.normalize spelling) ∧
      (∀ spelling, Tag.normalize (Tag.normalize spelling) = Tag.normalize spelling) ∧
      ∀ (place : Location) (respelled : List (String × Location)),
        (respelled.map fun tag => Tag.normalize tag.1) =
            (written.map fun tag => Tag.normalize tag.1) →
          (ofWritten place respelled).names = (ofWritten location written).names ∧
            ∀ probe, (ofWritten place respelled).contains probe =
              (ofWritten location written).contains probe := by
  refine ⟨holdsFirsts_ofWritten location written, ?_, ?_, fun _ _ => Tag.standsFor_iff, ?_, ?_⟩
  · intro raw
    rw [ofRaw_eq_ofWritten]
    exact holdsFirsts_ofWritten location _
  · intro spellings
    rw [ofSpellings_eq_ofWritten]
    exact holdsFirsts_ofWritten location _
  · intro spelling
    exact (Tag.isName_normalize spelling).normalize_eq
  · intro place respelled hsame
    have hnames : (ofWritten place respelled).names = (ofWritten location written).names := by
      rw [names_ofWritten, names_ofWritten, hsame]
    refine ⟨hnames, fun probe => ?_⟩
    rw [contains, contains, hnames]

/-- A no-break space is a blank, and a sign without a name is a name. -/
theorem independent_of_blanks :
    let written : List (String × Location) :=
      [("wip", ⟨"a", 2⟩), (" @slow", ⟨"a", 2⟩), ("@wip", ⟨"a", 3⟩), ("@", ⟨"a", 3⟩)]
    let respelled : List (String × Location) :=
      [("@wip\u00a0", ⟨"b", 5⟩), ("slow", ⟨"b", 6⟩), ("\twip", ⟨"b", 7⟩), (" ", ⟨"b", 8⟩)]
    (respelled.map fun tag => Tag.normalize tag.1) =
        (written.map fun tag => Tag.normalize tag.1) ∧
      (ofWritten ⟨"b", 4⟩ respelled).names = (ofWritten ⟨"a", 1⟩ written).names := by
  intro written respelled
  have hsame : (respelled.map fun tag => Tag.normalize tag.1) =
      written.map fun tag => Tag.normalize tag.1 := by decide
  exact ⟨hsame, ((independent_of_spelling ⟨"a", 1⟩ _).2.2.2.2.2 ⟨"b", 4⟩ _ hsame).1⟩

/-! ## The tags of a node and of its feature -/

theorem unionNames_eq {first second : TagSet} (hfirst : first.names.Nodup)
    (hsecond : second.names.Nodup) :
    first.unionNames second =
      first.names ++ second.names.filter fun name => name ∉ first.names := by
  have hadded : (second.names.removeAll first.names) =
      second.names.filter fun name => name ∉ first.names := by
    refine List.filter_congr fun name _ => ?_
    simp
  rw [unionNames, List.eraseDups_append, eraseDups_of_nodup hfirst, hadded,
    eraseDups_of_nodup (hsecond.filter _)]

end TagSet

/-- **The tags of a scenario and of its feature, put together.** The feature's names come first, all
of them, then the scenario's names that are not among them. -/
theorem Child.allTagNames_union (child : Child) {place place' : Location}
    {feature own : List (String × Location)}
    (hfeature : child.head.featureTags = TagSet.ofWritten place feature)
    (hown : child.head.tags = TagSet.ofWritten place' own) :
    let F := child.head.featureTags
    let T := child.head.tags
    child.head.allTagNames.Nodup ∧
      F.names <+: child.head.allTagNames ∧
      child.head.allTagNames = F.names ++ T.names.filter (fun name => name ∉ F.names) ∧
      (∀ location,
        child.head.allTagNames = (TagSet.ofSpellings location (F.names ++ T.names)).names) ∧
      ∀ probe, Tag.normalize probe ∈ child.head.allTagNames ↔
        F.contains probe = true ∨ T.contains probe = true := by
  intro F T
  have hF : F = TagSet.ofWritten place feature := hfeature
  have hT : T = TagSet.ofWritten place' own := hown
  -- Both sets hold names, so that making a set of them again does not change any.
  have hnames : ∀ name ∈ F.names ++ T.names, Tag.IsName name := by
    intro name hname
    rcases List.mem_append.mp hname with hname | hname
    · exact TagSet.isName_of_mem_ofWritten place (hF ▸ hname)
    · exact TagSet.isName_of_mem_ofWritten place' (hT ▸ hname)
  have hnodup : F.names.Nodup := hF ▸ TagSet.nodup_names_ofWritten place feature
  have hnodup' : T.names.Nodup := hT ▸ TagSet.nodup_names_ofWritten place' own
  have hunion : child.head.allTagNames = F.names ++ T.names.filter fun name => name ∉ F.names :=
    TagSet.unionNames_eq hnodup hnodup'
  refine ⟨nodup_eraseDups _, ?_, hunion, ?_, ?_⟩
  · rw [hunion]
    exact List.prefix_append _ _
  · intro location
    rw [TagSet.names_ofSpellings, TagSet.map_normalize_of_isName hnames]
    rfl
  · intro probe
    rw [ScenarioHead.allTagNames, TagSet.unionNames, List.mem_eraseDups, List.mem_append,
      TagSet.contains_iff, TagSet.contains_iff]

/-- A tag of the feature that the scenario repeats stands in the feature's place. -/
theorem Child.allTagNames_union_repeated :
    let feature : List (String × Location) := [("wip", ⟨"a", 1⟩), ("@slow", ⟨"a", 1⟩)]
    let own : List (String × Location) := [(" fast", ⟨"a", 4⟩), ("slow", ⟨"a", 4⟩)]
    let child : Child := .scenario
      { (default : Head) with
        language := ⟨"en"⟩
        background := .empty ⟨"en"⟩
        featureTags := .ofWritten ⟨"a", 2⟩ feature
        tags := .ofWritten ⟨"a", 5⟩ own
        steps := [] }
    child.head.featureTags = .ofWritten ⟨"a", 2⟩ feature ∧
      child.head.tags = .ofWritten ⟨"a", 5⟩ own ∧
      child.head.allTagNames =
        child.head.featureTags.names ++
          child.head.tags.names.filter (fun name => name ∉ child.head.featureTags.names) ∧
      child.head.allTagNames = ["@wip", "@slow", "@fast"] := by
  intro feature own child
  exact ⟨rfl, rfl, (Child.allTagNames_union child rfl rfl).2.2.1, by decide⟩

end FeatureTree
