import QueryPipeline.Proofs.Acceptance
import QueryPipeline.Proofs.StraySeparators
import QueryPipeline.Proofs.Validity
import QueryPipeline.Proofs.Writing

/-!
# Joins that are spelled out

The names that a join descriptor leaves out are found by rules, and writing down what the rules find
changes nothing: neither the join, nor the chain that it stands in, nor the pipeline of the query.

* `Grammar.joinNames_append` — further names behind a descriptor;
* **`JoinSpec.read_of_three_names`** — a descriptor of three names needs no rule;
* `JoinSpec.names_of_read` — what a descriptor that is read says about its names;
* **`JoinSpec.spelledOut`**, **`read_spelledOut`** — a descriptor with all its names, and that it is read as
  the descriptor that leaves them out;
* **`join_spelled_out`** — all of this for descriptors of any names, and for every query.
-/

namespace QueryPipeline

open Reading

/-- A singular lacks what its plural lacks. -/
theorem lacks_of_singularize {cs : List Char} {name singular : String} (hname : Text.Lacks cs name)
    (h : singularize name = some singular) : Text.Lacks cs singular := by
  rw [singularize] at h
  split at h
  · cases h
  · cases h
    intro c hc hmem
    rw [String.toList_ofList] at hmem
    exact hname c hc (List.dropLast_subset _ hmem)

/-- Text behind a separator does not change what the text in front of it starts with. -/
theorem Text.after_append {c sep : Char} (hsep : sep ≠ c) (s rest : String) :
    after c (s ++ String.singleton sep ++ rest)
      = (after c s).map fun text => text ++ String.singleton sep ++ rest := by
  have htext : (s ++ String.singleton sep ++ rest).toList = s.toList ++ sep :: rest.toList := by simp
  rw [after, after, htext]
  cases s.toList with
  | nil => exact if_neg hsep
  | cons d ds =>
    show (if d = c then some (String.ofList (ds ++ sep :: rest.toList)) else none)
      = (if d = c then some (String.ofList ds) else none).map _
    by_cases hd : d = c
    · rw [if_pos hd, if_pos hd, Option.map_some, Option.some.injEq]
      apply String.toList_inj.mp
      simp
    · rw [if_neg hd, if_neg hd, Option.map_none]

/-- A text lacks what it did if a piece that lacks it is put in the place of another. -/
theorem Text.Lacks.replace {cs : List Char} {sep : Char} {s piece piece' : String}
    {before after : List String} (h : Lacks cs s) (hsplit : split sep s = before ++ piece :: after)
    (hsep : Lacks cs (String.singleton sep)) (hpiece : Lacks cs piece') :
    Lacks cs ((String.singleton sep).intercalate (before ++ piece' :: after)) := by
  have hpieces : ∀ p ∈ before ++ piece :: after, Lacks cs p := by
    rw [← hsplit]
    exact fun p hp => h.of_mem_split hp
  exact Lacks.intercalate sep hsep (forall_mem_replace hpieces hpiece)

/-! ### The names of a descriptor -/

namespace Grammar

/-- Further names stand behind those of the descriptor. -/
theorem joinNames_append (descriptor rest : String) :
    joinNames (descriptor ++ "|" ++ rest) = joinNames descriptor ++ Text.split '|' rest := by
  have hbar : "|" = String.singleton '|' := rfl
  rw [hbar, joinNames, joinNames, Text.after_append (by decide)]
  cases Text.after '+' descriptor with
  | none => exact Text.split_append '|' descriptor rest
  | some text => exact Text.split_append '|' text rest

/-- Further names leave it open whether many documents are joined. -/
theorem joinsMany_append (descriptor rest : String) :
    joinsMany (descriptor ++ "|" ++ rest) = joinsMany descriptor := by
  have hbar : "|" = String.singleton '|' := rfl
  rw [hbar, joinsMany, joinsMany, ← Text.isSome_after, ← Text.isSome_after, Text.after_append (by decide),
    Option.isSome_map]

theorem joinNames_plus (text : String) : joinNames ("+" ++ text) = Text.split '|' text := by
  have hafter : Text.after '+' ("+" ++ text) = some text := Text.after_eq_some_iff.mpr rfl
  rw [joinNames, hafter, Option.getD_some]

theorem joinNames_of_not_joinsMany {descriptor : String} (h : joinsMany descriptor = false) :
    joinNames descriptor = Text.split '|' descriptor := by
  rw [joinsMany, ← Text.isSome_after, Option.isSome_eq_false_iff, Option.isNone_iff_eq_none] at h
  rw [joinNames, h, Option.getD_none]

end Grammar

namespace JoinSpec

open Grammar

variable {known : Option String} {path descriptor : String} {spec : JoinSpec}

/-- **A descriptor of three names** is read as they say, whatever is known and wherever it stands. -/
theorem read_of_three_names {plural singular localName : String}
    (hnames : joinNames descriptor = [plural, singular, localName]) (hplural : plural ≠ "")
    (hsingular : singular ≠ "") (hlocal : localName ≠ "") (known : Option String) (path : String) :
    JoinSpec.read known path descriptor
      = .ok ⟨plural, some singular, some localName, joinsMany descriptor, path⟩ := by
  have hnamed : "" ∉ [plural, singular, localName] := by
    simp [hplural.symm, hsingular.symm, hlocal.symm]
  rw [Acceptance.read_eq, hnames, if_neg (by simp), if_neg hnamed, if_neg (by simp), if_neg (by simp)]
  rfl

/-- A singular and the name of a document at hand, written behind a descriptor of one name. -/
theorem read_append_names {plural singular localName : String}
    (hnames : joinNames descriptor = [plural]) (hplural : plural ≠ "") (hsingular : singular ≠ "")
    (hlocal : localName ≠ "") (hplain : '|' ∉ singular.toList) (hplain' : '|' ∉ localName.toList)
    (known : Option String) (path : String) :
    JoinSpec.read known path (descriptor ++ "|" ++ singular ++ "|" ++ localName)
      = .ok ⟨plural, some singular, some localName, joinsMany descriptor, path⟩ := by
  have hthree : joinNames (descriptor ++ "|" ++ singular ++ "|" ++ localName)
      = [plural, singular, localName] := by
    rw [joinNames_append, joinNames_append, hnames, Text.split_of_not_mem hplain,
      Text.split_of_not_mem hplain']
    rfl
  rw [read_of_three_names hthree hplural hsingular hlocal, joinsMany_append, joinsMany_append]

/-- A descriptor that is read has at most three names, none of them empty, and what it leaves out is found
by the rules. -/
theorem names_of_read (h : JoinSpec.read known path descriptor = .ok spec) :
    (joinNames descriptor).length ≤ 3 ∧ "" ∉ joinNames descriptor
      ∧ spec = ⟨(joinNames descriptor).headD "",
        (joinNames descriptor)[1]?.or (singularize ((joinNames descriptor).headD "")),
        (joinNames descriptor)[2]?.or known, joinsMany descriptor, path⟩ := by
  rw [Acceptance.read_eq] at h
  split at h
  · cases h
  rename_i hfew
  split at h
  · cases h
  rename_i hnamed
  split at h
  · cases h
  split at h
  · cases h
  cases h
  exact ⟨Nat.le_of_not_lt hfew, hnamed, rfl⟩

theorem ne_empty_of_read (h : JoinSpec.read known path descriptor = .ok spec) : descriptor ≠ "" := by
  rintro rfl
  obtain ⟨-, hnamed, -⟩ := names_of_read h
  exact hnamed (by decide)

/-- A descriptor is read in the same way under every path. -/
theorem read_of_path (known : Option String) (path path' descriptor : String) :
    JoinSpec.read known path' descriptor
      = (JoinSpec.read known path descriptor).map fun spec => { spec with path := path' } := by
  rw [Acceptance.read_eq, Acceptance.read_eq]
  split
  · rfl
  split
  · rfl
  split
  · rfl
  split
  · rfl
  · rfl

/-! ### Names that are written down -/

/-- A descriptor with all its names: the singular and what a document at hand is called are written behind
the names that are there. -/
def spelledOut (singular localName descriptor : String) : String :=
  match joinNames descriptor with
  | [_] => descriptor ++ "|" ++ singular ++ "|" ++ localName
  | [_, _] => descriptor ++ "|" ++ localName
  | _ => descriptor

theorem joinsMany_spelledOut (singular localName descriptor : String) :
    joinsMany (spelledOut singular localName descriptor) = joinsMany descriptor := by
  rw [spelledOut]
  split
  · rw [joinsMany_append, joinsMany_append]
  · rw [joinsMany_append]
  · rfl

/-- A singular that is found for a name of a descriptor could stand in it as a name. -/
theorem isName_of_singularize {plural singular : String} (hplural : plural ∈ joinNames descriptor)
    (h : singularize plural = some singular) :
    singular ≠ "" ∧ Text.split '|' singular = [singular] := by
  have hplain : Text.Lacks ['|'] plural :=
    List.forall_mem_singleton.mpr (Text.not_mem_of_mem_split hplural)
  exact ⟨ne_empty_of_singularize h,
    Text.split_of_not_mem (lacks_of_singularize hplain h '|' List.mem_cons_self)⟩

/-- The names of a descriptor that is spelled out are those of the join. -/
theorem joinNames_spelledOut {localName singular : String} (hlocal : localName ≠ "")
    (hplain : '|' ∉ localName.toList)
    (h : JoinSpec.read (some localName) path descriptor = .ok spec)
    (hsingular : spec.singular = some singular) :
    ∃ name, spec.localName = some name ∧ "" ∉ [spec.plural, singular, name]
      ∧ joinNames (spelledOut singular localName descriptor) = [spec.plural, singular, name] := by
  obtain ⟨hfew, hnamed, rfl⟩ := names_of_read h
  simp only at hsingular ⊢
  rw [spelledOut]
  -- the number of names that are there decides which ones are written behind them
  rcases hnames : joinNames descriptor with _ | ⟨plural, _ | ⟨given, _ | ⟨name, _ | ⟨other, rest⟩⟩⟩⟩
  · exact absurd hnames (Text.split_ne_nil '|' _)
  · rw [hnames] at hsingular hnamed
    have hfound : singularize plural = some singular := hsingular
    have hmem : plural ∈ joinNames descriptor := by
      rw [hnames]
      exact List.mem_cons_self
    obtain ⟨hne, hsplit⟩ := isName_of_singularize hmem hfound
    refine ⟨localName, rfl, ?_, ?_⟩
    · simpa [hne.symm, hlocal.symm] using hnamed
    · simp only
      rw [joinNames_append, joinNames_append, hnames, hsplit, Text.split_of_not_mem hplain]
      rfl
  · rw [hnames] at hsingular hnamed
    have hgiven : given = singular := Option.some.inj hsingular
    refine ⟨localName, rfl, ?_, ?_⟩
    · simpa [hgiven, hlocal.symm] using hnamed
    · simp only
      rw [joinNames_append, hnames, hgiven, Text.split_of_not_mem hplain]
      rfl
  · rw [hnames] at hsingular hnamed
    have hgiven : given = singular := Option.some.inj hsingular
    refine ⟨name, rfl, ?_, ?_⟩
    · rw [← hgiven]
      exact hnamed
    · rw [hnames, hgiven]
      rfl
  · rw [hnames, List.length_cons, List.length_cons, List.length_cons, List.length_cons] at hfew
    omega

/-- **A descriptor that is spelled out** is read as the one that leaves its names to the rules, and then
whatever is known. -/
theorem read_spelledOut {localName singular : String} (hlocal : localName ≠ "")
    (hplain : '|' ∉ localName.toList)
    (h : JoinSpec.read (some localName) path descriptor = .ok spec)
    (hsingular : spec.singular = some singular) (known : Option String) :
    JoinSpec.read known path (spelledOut singular localName descriptor) = .ok spec := by
  obtain ⟨name, hname, hnamed, hnames⟩ := joinNames_spelledOut hlocal hplain h hsingular
  obtain ⟨-, -, hspec⟩ := names_of_read h
  have hmany : spec.isMany = joinsMany descriptor := congrArg isMany hspec
  have hpath : spec.path = path := congrArg JoinSpec.path hspec
  rw [read_of_three_names hnames (fun he => hnamed (by simp [he])) (fun he => hnamed (by simp [he]))
    (fun he => hnamed (by simp [he])), joinsMany_spelledOut, ← hsingular, ← hname, ← hmany, ← hpath]

/-! ### Chains -/

/-- A name of a descriptor lacks what the descriptor lacks. -/
theorem lacks_of_mem_joinNames {cs : List Char} (h : Text.Lacks cs descriptor) :
    ∀ name ∈ joinNames descriptor, Text.Lacks cs name := by
  intro name hname
  rw [joinNames] at hname
  cases hafter : Text.after '+' descriptor with
  | none =>
    rw [hafter, Option.getD_none] at hname
    exact h.of_mem_split hname
  | some text =>
    rw [hafter, Option.getD_some] at hname
    rw [Text.after_eq_some_iff.mp hafter, Text.lacks_append_iff] at h
    exact h.2.of_mem_split hname

theorem headD_mem_joinNames (descriptor : String) :
    (joinNames descriptor).headD "" ∈ joinNames descriptor := by
  cases hnames : joinNames descriptor with
  | nil => exact absurd hnames (Text.split_ne_nil '|' _)
  | cons name names => exact List.mem_cons_self

/-- The singular of a join lacks what its descriptor lacks. -/
theorem lacks_singular_of_read {cs : List Char} (hplain : Text.Lacks cs descriptor)
    (h : JoinSpec.read known path descriptor = .ok spec) {singular : String}
    (hsingular : spec.singular = some singular) : Text.Lacks cs singular := by
  have hnames := lacks_of_mem_joinNames hplain
  obtain ⟨-, -, rfl⟩ := names_of_read h
  obtain hgiven | ⟨-, hfound⟩ := Option.or_eq_some_iff.mp hsingular
  · exact hnames singular (List.mem_of_getElem? hgiven)
  · exact lacks_of_singularize (hnames _ (headD_mem_joinNames descriptor)) hfound

/-- A descriptor that is spelled out lacks what the descriptor and the name of a document at hand lack. -/
theorem lacks_spelledOut {cs : List Char} {singular localName : String} (hbar : Text.Lacks cs "|")
    (hdescriptor : Text.Lacks cs descriptor) (hlocal : Text.Lacks cs localName)
    (h : JoinSpec.read known path descriptor = .ok spec) (hsingular : spec.singular = some singular) :
    Text.Lacks cs (spelledOut singular localName descriptor) := by
  have hname := lacks_singular_of_read hdescriptor h hsingular
  rw [spelledOut]
  split
  · exact (((hdescriptor.append hbar).append hname).append hbar).append hlocal
  · exact (hdescriptor.append hbar).append hlocal
  · exact hdescriptor

/-- A chain is read as before if a descriptor that is read is put in the place of another that is read as
it. -/
theorem readChain_replace {descriptor' : String}
    (h : ∀ path, ∃ spec, JoinSpec.read known path descriptor = .ok spec
      ∧ JoinSpec.read known path descriptor' = .ok spec)
    (front back : List String) (path : String) :
    readChain known path (front ++ descriptor' :: back)
      = readChain known path (front ++ descriptor :: back) := by
  induction front generalizing path with
  | nil =>
    obtain ⟨spec, hread, hread'⟩ := h path
    rw [List.nil_append, List.nil_append, readChain, readChain, hread, hread']
  | cons first front ih =>
    rw [List.cons_append, List.cons_append, readChain, readChain]
    cases JoinSpec.read known path first with
    | error fault => rfl
    | ok spec =>
      simp only
      rw [ih (spec.target ++ ".")]

end JoinSpec

/-! ### Queries -/

section

variable {options : CompileOptions} {localName args descriptor singular path : String} {spec : JoinSpec}
  {front back : List String}

/-- A segment is read as before if one of its descriptors is spelled out. -/
theorem Segment.read_spelledOut (hlocal : options.collection.bind singularize = some localName)
    (hplain : Text.Lacks ['|', ',', '&'] localName)
    (hargs : Text.split ',' args = front ++ descriptor :: back)
    (hread : JoinSpec.read (some localName) path descriptor = .ok spec)
    (hsingular : spec.singular = some singular) :
    Segment.read options
        ("f_" ++ ",".intercalate (front ++ JoinSpec.spelledOut singular localName descriptor :: back))
      = Segment.read options ("f_" ++ args) := by
  have hcomma : "," = String.singleton ',' := rfl
  have hcode : ∀ args, "f_" ++ args = StageKind.lookup.code ++ "_" ++ args := fun _ => rfl
  have hne : localName ≠ "" := by
    obtain ⟨collection, -, hfound⟩ := Option.bind_eq_some_iff.mp hlocal
    exact ne_empty_of_singularize hfound
  -- the chain reads the descriptor under a path of its own, which need not be the one at hand
  have hsame : ∀ other, ∃ spec, JoinSpec.read (some localName) other descriptor = .ok spec
      ∧ JoinSpec.read (some localName) other (JoinSpec.spelledOut singular localName descriptor)
        = .ok spec := by
    intro other
    have hother : JoinSpec.read (some localName) other descriptor = .ok { spec with path := other } := by
      rw [JoinSpec.read_of_path _ path, hread]
      rfl
    exact ⟨_, hother, JoinSpec.read_spelledOut hne (hplain '|' (by decide)) hother hsingular _⟩
  obtain ⟨_, -, hspelled⟩ := hsame path
  have hdescriptor : Text.Lacks [','] descriptor :=
    List.forall_mem_singleton.mpr (Text.not_mem_of_split hargs)
  have hlacks := JoinSpec.lacks_spelledOut (by decide) hdescriptor (hplain.mono (by decide)) hread hsingular
  have hsplit := Text.split_replace hargs (hlacks ',' List.mem_cons_self)
  rw [hcode, hcode, read_code, read_code, readArguments, readArguments, JoinSpec.readAll, JoinSpec.readAll,
    hlocal, hcomma, Text.items_of_split hargs (JoinSpec.ne_empty_of_read hread),
    Text.items_of_split hsplit (JoinSpec.ne_empty_of_read hspelled), JoinSpec.readChain_replace hsame]

/-- **A query with a join that is spelled out** compiles as the query that leaves its names to the
rules. -/
theorem compile_of_spelledOut (hlocal : options.collection.bind singularize = some localName)
    (hplain : Text.Lacks ['|', ',', '&'] localName) {query : String} {before after : List String}
    (hquery : Text.split '&' query = before ++ ("f_" ++ args) :: after)
    (hargs : Text.split ',' args = front ++ descriptor :: back)
    (hread : JoinSpec.read (some localName) path descriptor = .ok spec)
    (hsingular : spec.singular = some singular) :
    compile options ("&".intercalate (before
        ++ ("f_" ++ ",".intercalate (front ++ JoinSpec.spelledOut singular localName descriptor :: back))
          :: after))
      = compile options query := by
  have hampersand : "&" = String.singleton '&' := rfl
  have hcomma : "," = String.singleton ',' := rfl
  have hsegment : Text.Lacks ['&'] ("f_" ++ args) :=
    List.forall_mem_singleton.mpr (Text.not_mem_of_split hquery)
  obtain ⟨hcode, hlist⟩ := Text.lacks_append_iff.mp hsegment
  -- the new text stays one segment, and its list cuts where the old one did
  have hspelled : Text.Lacks ['&'] (JoinSpec.spelledOut singular localName descriptor) := by
    have hmem : descriptor ∈ Text.split ',' args := by
      rw [hargs]
      exact List.mem_append_right _ List.mem_cons_self
    exact JoinSpec.lacks_spelledOut (by decide) (hlist.of_mem_split hmem) (hplain.mono (by decide)) hread
      hsingular
  have hreplaced := hcode.append (hlist.replace hargs (by decide) hspelled)
  have hsplit := Text.split_replace hquery (hreplaced '&' List.mem_cons_self)
  have hne := Text.ne_empty_of_split hquery (by simp)
  have hne' := Text.ne_empty_of_split hsplit (by simp)
  rw [← hcomma] at hsplit hne'
  rw [hampersand, compile, compile, if_neg hne, if_neg hne',
    readSegments_replace options hquery hsplit (by simp) (by simp)
      (Segment.read_spelledOut hlocal hplain hargs hread hsingular)]

end

/-! ### Joins of any names -/

/-- **Spelling out the names of a join changes nothing.**  A descriptor of three names is read as exactly
these, with the plus that it starts with, whatever is known and under every path.  A descriptor that is read
where the documents at hand have a name is the same join with its singular and that name written down,
whatever is known then.  And a query in which one descriptor is spelled out in this way compiles as it did. -/
theorem join_spelled_out :
    (∀ plural singular localName : String, plural ≠ "" → singular ≠ "" → localName ≠ "" →
      '|' ∉ plural.toList → '|' ∉ singular.toList → '|' ∉ localName.toList →
      ∀ (known : Option String) (path : String),
        JoinSpec.read known path ("+" ++ plural ++ "|" ++ singular ++ "|" ++ localName)
          = .ok ⟨plural, some singular, some localName, true, path⟩
        ∧ (Text.startsWith '+' plural = false →
          JoinSpec.read known path (plural ++ "|" ++ singular ++ "|" ++ localName)
            = .ok ⟨plural, some singular, some localName, false, path⟩))
      ∧ (∀ (localName path descriptor singular : String) (spec : JoinSpec), localName ≠ "" →
        '|' ∉ localName.toList → JoinSpec.read (some localName) path descriptor = .ok spec →
        spec.singular = some singular → ∀ known,
          JoinSpec.read known path (JoinSpec.spelledOut singular localName descriptor) = .ok spec)
      ∧ ∀ (options : CompileOptions) (localName query args descriptor path singular : String)
          (spec : JoinSpec) (before after front back : List String),
        options.collection.bind singularize = some localName →
        Text.Lacks ['|', ',', '&'] localName →
        Text.split '&' query = before ++ ("f_" ++ args) :: after →
        Text.split ',' args = front ++ descriptor :: back →
        JoinSpec.read (some localName) path descriptor = .ok spec → spec.singular = some singular →
          compile options ("&".intercalate (before
              ++ ("f_" ++ ",".intercalate
                (front ++ JoinSpec.spelledOut singular localName descriptor :: back)) :: after))
            = compile options query := by
  refine ⟨?_, ?_, ?_⟩
  · intro plural singular localName hplural hsingular hlocal hplain hplain' hplain'' known path
    constructor
    · have hnames : Grammar.joinNames ("+" ++ plural) = [plural] := by
        rw [Grammar.joinNames_plus, Text.split_of_not_mem hplain]
      have hmany : Grammar.joinsMany ("+" ++ plural) = true := Text.startsWith_iff.mpr ⟨plural, rfl⟩
      rw [JoinSpec.read_append_names hnames hplural hsingular hlocal hplain' hplain'', hmany]
    · intro hone
      have hnames : Grammar.joinNames plural = [plural] := by
        rw [Grammar.joinNames_of_not_joinsMany hone, Text.split_of_not_mem hplain]
      rw [JoinSpec.read_append_names hnames hplural hsingular hlocal hplain' hplain'', Grammar.joinsMany,
        hone]
  · intro localName path descriptor singular spec hlocal hplain hread hsingular known
    exact JoinSpec.read_spelledOut hlocal hplain hread hsingular known
  · intro options localName query args descriptor path singular spec before after front back hlocal hplain
      hquery hargs hread hsingular
    exact compile_of_spelledOut hlocal hplain hquery hargs hread hsingular

/-- A plural that starts with a plus itself; a plural of two characters with only its plus in front of it;
and a join of one document behind a join of many. -/
theorem join_spelled_out_in_chain :
    JoinSpec.read none "a." "++x|é|y" = .ok ⟨"+x", some "é", some "y", true, "a."⟩
      ∧ JoinSpec.read none "" "+éx|é|order" = .ok ⟨"éx", some "é", some "order", true, ""⟩
      ∧ compile (.standard (some "orders")) "m_a=1&f_+items,tags|tag|order&p_id"
        = compile (.standard (some "orders")) "m_a=1&f_+items,tags&p_id" := by
  obtain ⟨hthree, hread, hcompile⟩ := join_spelled_out
  refine ⟨?_, ?_, ?_⟩
  · exact (hthree "+x" "é" "y" (by decide) (by decide) (by decide) (by decide) (by decide) (by decide)
      none "a.").1
  · have hone : JoinSpec.read (some "order") "" "+éx" = .ok ⟨"éx", some "é", some "order", true, ""⟩ := by
      decide +kernel
    have htext : JoinSpec.spelledOut "é" "order" "+éx" = "+éx|é|order" := by decide +kernel
    rw [← htext]
    exact hread "order" "" "+éx" "é" _ (by decide) (by decide) hone rfl none
  · have htags : JoinSpec.read (some "order") "items." "tags"
        = .ok ⟨"tags", some "tag", some "order", false, "items."⟩ := by
      decide +kernel
    have htext : "&".intercalate (["m_a=1"]
        ++ ("f_" ++ ",".intercalate (["+items"] ++ JoinSpec.spelledOut "tag" "order" "tags" :: []))
          :: ["p_id"]) = "m_a=1&f_+items,tags|tag|order&p_id" := by
      decide +kernel
    rw [← htext]
    exact hcompile (.standard (some "orders")) "order" "m_a=1&f_+items,tags&p_id" "+items,tags" "tags"
      "items." "tag" _ ["m_a=1"] ["p_id"] ["+items"] [] (by decide +kernel) (by decide) (by decide +kernel)
      (by decide +kernel) htags rfl

end QueryPipeline
