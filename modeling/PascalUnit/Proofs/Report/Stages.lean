import Mathlib.Data.List.TakeWhile
import PascalUnit.Report

/-!
# Stages of a report

A view is read from its name and from nothing else.  A report passes through several
stages, and each of them can only fail when all before it have succeeded: reading the
file, turning away a query on tokens, dividing the text into lexemes, recognising
the unit, reading the query, and following it.  `Refused` tells these cases apart by
what each stage is given.
-/

namespace PascalUnit

/-!
## Names of views
-/

theorem Stage.name_of_ofName? {text : String} {s : Stage} (h : ofName? text = some s) :
    s.name = text := by
  have hfound := List.find?_some h
  exact of_decide_eq_true hfound

theorem Format.name_of_ofName? {text : String} {f : Format} (h : ofName? text = some f) :
    f.name = text := by
  have hfound := List.find?_some h
  exact of_decide_eq_true hfound

namespace View

theorem mem_all (v : View) : v ∈ all := by
  cases v <;> decide

theorem parse_name (v : View) : parse v.name = .ok v := by
  cases v <;> decide +kernel

theorem ofParts_eq_ok {s : Stage} {f : Format} {v : View} (h : ofParts s f = .ok v) :
    v.stage = s ∧ v.format = f := by
  cases s <;> cases f <;> cases h <;> exact ⟨rfl, rfl⟩

theorem name_of_parse {text : String} {v : View} (h : parse text = .ok v) : v.name = text := by
  unfold parse at h
  simp only at h
  split at h
  · cases h
  rename_i c rest hrest
  -- the text was divided where its first hyphen stands
  have hhyphen : c = '-' := by
    have hhead := List.head?_dropWhile_not (fun c => decide (c ≠ '-')) text.toList
    rw [hrest] at hhead
    simpa using hhead
  split at h
  · cases h
  rename_i s hstage
  split at h
  · cases h
  rename_i f hformat
  split at h
  · cases h
  rename_i v' hparts
  cases h
  rcases ofParts_eq_ok hparts with ⟨hvs, hvf⟩
  have htext :=
    List.takeWhile_append_dropWhile (p := fun c => decide (c ≠ '-')) (l := text.toList)
  rw [hrest, hhyphen] at htext
  apply String.toList_injective
  rw [name, hvs, hvf, Stage.name_of_ofName? hstage, Format.name_of_ofName? hformat,
    String.toList_append, String.toList_append, List.append_assoc]
  simp only [String.toList_ofList]
  exact htext

theorem parse_eq_ok_iff {text : String} {v : View} : parse text = .ok v ↔ v.name = text := by
  constructor
  · exact name_of_parse
  · intro h
    rw [← h]
    exact parse_name v

end View

/-!
## The first stage that fails
-/

namespace Report

/-- Why a file gives no report: each case says that the stages before have succeeded. -/
inductive Refused (files : Files) (v : View) (query : Option String) (path : String) :
    ReportError → Prop where
  | unreadable {fault : ReadFault} :
      files.read path = .error fault → Refused files v query path (.unreadable path fault)
  | queryOnTokens {source q : String} :
      files.read path = .ok source → v.stage = .tokens → query = some q →
        Refused files v query path .queryOnTokens
  | lexical {source : String} {e : LexError} :
      files.read path = .ok source → (v.stage = .tokens → query = none) →
        placedTokens source.toList = .error e →
          Refused files v query path (.unparsed (.lexical e))
  | structural {source : String} {tokens : List PlacedToken} {e : SyntaxError} :
      files.read path = .ok source → v.stage = .tree →
        placedTokens source.toList = .ok tokens →
          Tree.ofTokens source.toList tokens = .error e →
            Refused files v query path (.unparsed (.structural e))
  | malformed {source q : String} {t : Tree} {e : PathError} :
      files.read path = .ok source → v.stage = .tree → Tree.parse source.toList = .ok t →
        query = some q → Path.parse q = .error e →
          Refused files v query path (.unfound (.malformed e))
  | unfollowed {source q : String} {t : Tree} {p : Path} {e : QueryError} :
      files.read path = .ok source → v.stage = .tree → Tree.parse source.toList = .ok t →
        query = some q → Path.parse q = .ok p → p.evaluate t = .error e →
          Refused files v query path (.unfound (.unfollowed e))

variable {files : Files} {v : View} {options : ReportOptions} {path source : String}

theorem lexemes_eq_error_iff {cs : List Char} {e : LexError} :
    lexemes cs = .error e ↔ placedTokens cs = .error e := by
  unfold lexemes
  cases placedTokens cs with
  | ok tokens => simp
  | error e => simp

theorem ofFile_of_read (h : files.read path = .ok source) :
    ofFile files v options path = ofSource v options source := by
  rw [ofFile, h]

theorem ofSource_tokens (hstage : v.stage = .tokens) (hquery : options.query = none) :
    ofSource v options source =
      match lexemes source.toList with
      | .error e => .error (.unparsed (.lexical e))
      | .ok xs => .ok (ofLexemes v xs) := by
  unfold ofSource
  split
  · exact if_neg (by simp [hquery])
  · rename_i htree
    rw [hstage] at htree
    cases htree

theorem ofSource_tree (hstage : v.stage = .tree) :
    ofSource v options source =
      match Tree.parse source.toList with
      | .error e => .error (.unparsed e)
      | .ok t =>
          match select options.query t with
          | .error e => .error e
          | .ok u => .ok (ofTree v options.labelWidth u) := by
  unfold ofSource
  split
  · rename_i htokens
    rw [hstage] at htokens
    cases htokens
  · rfl

theorem ofFile_of_refused {e : ReportError} (h : Refused files v options.query path e) :
    ofFile files v options path = .error e := by
  cases h with
  | unreadable hread => rw [ofFile, hread]
  | queryOnTokens hread hstage hquery =>
      rw [ofFile_of_read hread, ofSource, hstage]
      simp [hquery]
  | lexical hread hquery htokens =>
      rw [ofFile_of_read hread]
      cases hstage : v.stage with
      | tokens =>
          rw [ofSource_tokens hstage (hquery hstage), lexemes_eq_error_iff.mpr htokens]
      | tree => rw [ofSource_tree hstage, Tree.parse, htokens]
  | structural hread hstage htokens htree =>
      rw [ofFile_of_read hread, ofSource_tree hstage, Tree.parse, htokens]
      simp only [htree]
  | malformed hread hstage htree hquery hpath =>
      rw [ofFile_of_read hread, ofSource_tree hstage, htree, hquery]
      simp only [select, Tree.lookup, hpath]
  | unfollowed hread hstage htree hquery hpath hfollow =>
      rw [ofFile_of_read hread, ofSource_tree hstage, htree, hquery]
      simp only [select, Tree.lookup, hpath, hfollow]

theorem refused_of_parse {query : Option String} {e : ParseError}
    (hread : files.read path = .ok source) (hstage : v.stage = .tree)
    (h : Tree.parse source.toList = .error e) : Refused files v query path (.unparsed e) := by
  unfold Tree.parse at h
  cases htokens : placedTokens source.toList with
  | error e' =>
      rw [htokens] at h
      cases h
      exact .lexical hread (by simp [hstage]) htokens
  | ok tokens =>
      rw [htokens] at h
      cases htree : Tree.ofTokens source.toList tokens with
      | error e' =>
          simp only [htree] at h
          cases h
          exact .structural hread hstage htokens htree
      | ok t =>
          simp only [htree] at h
          cases h

theorem refused_of_select {query : Option String} {t : Tree} {e : ReportError}
    (hread : files.read path = .ok source) (hstage : v.stage = .tree)
    (htree : Tree.parse source.toList = .ok t) (h : select query t = .error e) :
    Refused files v query path e := by
  cases query with
  | none => cases h
  | some q =>
      unfold select Tree.lookup at h
      cases hpath : Path.parse q with
      | error e' =>
          simp only [hpath] at h
          cases h
          exact .malformed hread hstage htree rfl hpath
      | ok p =>
          cases hfollow : p.evaluate t with
          | error e' =>
              simp only [hpath, hfollow] at h
              cases h
              exact .unfollowed hread hstage htree rfl hpath hfollow
          | ok u =>
              simp only [hpath, hfollow] at h
              cases h

theorem refused_of_ofFile {e : ReportError} (h : ofFile files v options path = .error e) :
    Refused files v options.query path e := by
  cases hread : files.read path with
  | error fault =>
      rw [ofFile, hread] at h
      cases h
      exact .unreadable hread
  | ok source =>
      rw [ofFile_of_read hread] at h
      cases hstage : v.stage with
      | tokens =>
          cases hquery : options.query with
          | some q =>
              rw [ofSource, hstage] at h
              simp only [hquery, Option.isSome_some, if_true] at h
              cases h
              exact .queryOnTokens hread hstage rfl
          | none =>
              rw [ofSource_tokens hstage hquery] at h
              cases hlexemes : lexemes source.toList with
              | ok xs =>
                  rw [hlexemes] at h
                  cases h
              | error e =>
                  rw [hlexemes] at h
                  cases h
                  exact .lexical hread (fun _ => rfl) (lexemes_eq_error_iff.mp hlexemes)
      | tree =>
          rw [ofSource_tree hstage] at h
          cases hparse : Tree.parse source.toList with
          | error e =>
              rw [hparse] at h
              cases h
              exact refused_of_parse hread hstage hparse
          | ok t =>
              rw [hparse] at h
              cases hselect : select options.query t with
              | error e =>
                  simp only [hselect] at h
                  cases h
                  exact refused_of_select hread hstage hparse hselect
              | ok u =>
                  simp only [hselect] at h
                  cases h

theorem ofFile_eq_error_iff {e : ReportError} :
    ofFile files v options path = .error e ↔ Refused files v options.query path e :=
  ⟨refused_of_ofFile, ofFile_of_refused⟩

end Report
end PascalUnit
