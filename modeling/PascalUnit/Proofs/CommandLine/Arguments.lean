import Mathlib.Data.List.Nodup
import PascalUnit.CommandLine
import PascalUnit.Proofs.Path.Printing

/-!
# Arguments for every invocation

An invocation is written with a long option for each setting, its value after an
equals sign, and with its path after two hyphens.  What is written is read back,
whatever the texts are; only the label width has to be a count.  No other
invocation can be asked for.
-/

namespace PascalUnit

theorem Text.lt_of_readCount? {cs : List Char} {n : Nat} (h : readCount? cs = some n) :
    n < countLimit := by
  simp only [readCount?, Bool.and_eq_true, decide_eq_true_eq] at h
  split at h
  · rename_i hcount
    cases h
    exact hcount.2
  · cases h

namespace CommandLine

/-!
## One option
-/

def written (value : Flag × String) : String :=
  "--" ++ value.1.long ++ "=" ++ value.2

theorem splitEquals_append {name value : List Char} (h : '=' ∉ name) :
    splitEquals (name ++ '=' :: value) = (name, some (String.ofList value)) := by
  have hname : ∀ c ∈ name, decide (c ≠ '=') = true := by
    intro c hc
    exact decide_eq_true (ne_of_mem_of_not_mem hc h)
  rw [splitEquals, List.dropWhile_append_of_pos hname, List.takeWhile_append_of_pos hname]
  simp

theorem ofLong?_long (flag : Flag) : Flag.ofLong? flag.long.toList = some flag := by
  cases flag <;> rfl

theorem equals_notMem_long (flag : Flag) : '=' ∉ flag.long.toList := by
  cases flag <;> decide

theorem classify_written (flag : Flag) (value : String) :
    classify (written (flag, value)) = .option flag (some value) := by
  have htext : (written (flag, value)).toList =
      '-' :: '-' :: (flag.long.toList ++ '=' :: value.toList) := by
    simp [written]
  rw [classify, htext]
  split
  · rename_i hend
    simp at hend
  · rename_i cs _ heq
    cases heq
    simp [splitEquals_append (equals_notMem_long flag), ofLong?_long]
  · rename_i hlong heq
    cases heq
    exact (hlong rfl).elim
  · rename_i hshort
    exact (hshort _ _ rfl).elim

/-!
## Rows of options
-/

/-- Options that are all different are all kept. -/
theorem execute?_written {values : List (Flag × String)} {d : Draft}
    (h : ((d.values ++ values).map Prod.fst).Nodup) (rest : List String) :
    execute? d (values.map written ++ rest) = execute? ⟨d.path, d.values ++ values⟩ rest := by
  induction values generalizing d with
  | nil => simp
  | cons value values ih =>
      rcases value with ⟨flag, text⟩
      have hfresh : d.values.lookup flag = none := by
        rw [List.lookup_eq_none_iff]
        intro p hp
        rw [List.map_append, List.nodup_append] at h
        have hne : p.1 ≠ flag := h.2.2 p.1 (List.mem_map_of_mem hp) flag (by simp)
        exact bne_iff_ne.mpr hne.symm
      have hadd : d.addValue? flag text = some ⟨d.path, d.values ++ [(flag, text)]⟩ := by
        rw [Draft.addValue?, hfresh]
        rfl
      rw [List.map_cons, List.cons_append, execute?, classify_written]
      simp only [hadd, Option.bind_some]
      rw [ih (by simpa using h)]
      simp

theorem finish?_of_execute? {d : Draft} {arguments : List String} {i : Invocation}
    (h : execute? d arguments = some (.execute i)) :
    ∃ d : Draft, d.finish? = some (.execute i) := by
  fun_induction execute? d arguments with
  | case1 d => exact ⟨d, h⟩
  | case2 d argument rest hclass =>
      rcases Option.bind_eq_some_iff.mp h with ⟨d', _, hfinish⟩
      exact ⟨d', hfinish⟩
  | case3 | case4 | case7 | case9 => cases h
  | case5 d argument rest path hclass ih =>
      rcases Option.bind_eq_some_iff.mp h with ⟨d', _, hrest⟩
      exact ih d' hrest
  | case6 d argument rest flag value hclass ih =>
      rcases Option.bind_eq_some_iff.mp h with ⟨d', _, hrest⟩
      exact ih d' hrest
  | case8 d argument flag hclass value rest hvalue ih =>
      rcases Option.bind_eq_some_iff.mp h with ⟨d', _, hrest⟩
      exact ih d' hrest

theorem labelWidth_lt_of_finish? {d : Draft} {i : Invocation} {w : Nat}
    (h : d.finish? = some (.execute i)) (hw : i.labelWidth = some w) : w < Text.countLimit := by
  unfold Draft.finish? at h
  split at h
  · cases h
  · split at h
    · cases h
      cases hw
    · rename_i text _
      rcases Option.map_eq_some_iff.mp h with ⟨n, hn, hi⟩
      cases hi
      cases hw
      exact Text.lt_of_readCount? hn

theorem execute?_of_ofArguments? {arguments : List String} {i : Invocation}
    (h : Command.ofArguments? arguments = some (.execute i)) :
    ∃ rest, arguments = "execute" :: rest ∧ execute? .start rest = some (.execute i) := by
  cases arguments with
  | nil => cases h
  | cons argument rest =>
      rw [Command.ofArguments?] at h
      split at h
      · rename_i hname
        exact ⟨rest, by rw [hname], h⟩
      · -- The other commands report on nothing.
        unfold listFormats? help? at h
        repeat' split at h
        all_goals cases h

end CommandLine

/-!
## Whole invocations
-/

namespace Invocation

variable {i : Invocation}

def value? (i : Invocation) : Flag → Option String
  | .format => i.format
  | .query => i.query
  | .config => i.config
  | .labelWidth => i.labelWidth.map fun w => String.ofList (Text.writeCount w)

def values (i : Invocation) : List (Flag × String) :=
  Flag.all.filterMap fun flag => (i.value? flag).map (flag, ·)

def arguments (i : Invocation) : List String :=
  "execute" :: i.values.map CommandLine.written ++ ["--", i.path]

theorem nodup_values (i : Invocation) : (i.values.map Prod.fst).Nodup := by
  rw [values, List.map_filterMap]
  apply List.Nodup.filterMap
  · intro flag flag' found hfound hfound'
    simp only [Option.map_map, Option.mem_def, Option.map_eq_some_iff] at hfound hfound'
    rcases hfound with ⟨text, _, rfl⟩
    rcases hfound' with ⟨text', _, heq⟩
    exact heq.symm
  · decide

theorem lookup_filterMap_map (give : Flag → Option String) (flag : Flag) (flags : List Flag) :
    (flags.filterMap fun flag => (give flag).map (flag, ·)).lookup flag =
      if flag ∈ flags then give flag else none := by
  induction flags with
  | nil => rfl
  | cons other flags ih =>
      by_cases hflag : flag = other
      · subst hflag
        cases hgive : give flag with
        | none => simp [hgive, ih]
        | some text => simp [hgive]
      · cases hgive : give other with
        | none => simp [hgive, ih, hflag]
        | some text => simp [hgive, ih, hflag, List.lookup_cons, beq_false_of_ne hflag]

theorem lookup_values (i : Invocation) (flag : Flag) : i.values.lookup flag = i.value? flag := by
  have hflag : flag ∈ Flag.all := by
    cases flag <;> decide
  rw [values, lookup_filterMap_map, if_pos hflag]

theorem finish?_values (h : ∀ w, i.labelWidth = some w → w < Text.countLimit) :
    CommandLine.Draft.finish? ⟨some i.path, i.values⟩ = some (.execute i) := by
  simp only [CommandLine.Draft.finish?, lookup_values, value?]
  rcases i with ⟨path, format, query, config, labelWidth⟩
  cases labelWidth with
  | none => rfl
  | some w => simp [Text.readCount?_writeCount (h w rfl)]

theorem ofArguments?_arguments (h : ∀ w, i.labelWidth = some w → w < Text.countLimit) :
    Command.ofArguments? i.arguments = some (.execute i) := by
  have hvalues : CommandLine.execute? .start (i.values.map CommandLine.written ++ ["--", i.path]) =
      CommandLine.execute? ⟨none, i.values⟩ ["--", i.path] :=
    CommandLine.execute?_written i.nodup_values _
  have hend : CommandLine.classify "--" = .endOfOptions := rfl
  rw [arguments, List.cons_append, Command.ofArguments?, if_pos rfl, hvalues,
    CommandLine.execute?, hend]
  exact finish?_values h

/-- An invocation can be asked for when its label width is a count, and only then. -/
theorem exists_arguments_iff :
    (∃ arguments, Command.ofArguments? arguments = some (.execute i)) ↔
      ∀ w, i.labelWidth = some w → w < Text.countLimit := by
  constructor
  · intro ⟨arguments, h⟩ w hw
    rcases CommandLine.execute?_of_ofArguments? h with ⟨rest, _, hrest⟩
    rcases CommandLine.finish?_of_execute? hrest with ⟨d, hd⟩
    exact CommandLine.labelWidth_lt_of_finish? hd hw
  · intro h
    exact ⟨i.arguments, ofArguments?_arguments h⟩

end Invocation
end PascalUnit
