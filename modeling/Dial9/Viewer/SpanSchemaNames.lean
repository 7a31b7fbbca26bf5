/-
# Names of span schemas

A span of the old producers is named by its schema: a prefix, the module path of
the callsite, the name, the file and the line, all divided by colons. The reader
finds the line from the right, the file from the left at the first colon that
stands alone, and the name from the right again.
-/

import Dial9.Lib.Parsing

namespace Dial9.Viewer.SpanNames

open Dial9.Lib

structure LegacySpanSchemaInfo where
  target : Str
  name : Str
  file : Option Str
  line : Option Nat
  deriving DecidableEq

/-- The loop of `find_first_single_colon`, which knows whether a colon stands before. -/
def singleColonFrom : Bool → Nat → Str → Option Nat
  | _, _, [] => none
  | preceded, i, [c] => if c = ':' ∧ preceded = false then some i else none
  | preceded, i, c :: d :: rest =>
    if c = ':' then
      if d = ':' then singleColonFrom true (i + 2) rest
      else if preceded then singleColonFrom true (i + 1) (d :: rest)
      else some i
    else singleColonFrom false (i + 1) (d :: rest)

/-- Where the first colon stands that has no colon beside it. -/
def findFirstSingleColon (s : Str) : Option Nat := singleColonFrom false 0 s

/-- The text before and after the last `::`. -/
def rsplitPath (s : Str) : Option (Str × Str) :=
  (Str.splitOnceWord [':', ':'] s.reverse).map fun halves => (halves.2.reverse, halves.1.reverse)

def parseLegacySpanSchemaName (schemaName : Str) : Option LegacySpanSchemaInfo :=
  let typeName := ((Str.stripPrefix "SpanEnter__".toList schemaName).or
    (Str.stripPrefix "SpanExit__".toList schemaName)).filter (· ≠ [])
  match typeName with
  | some name => some ⟨[], name, none, none⟩
  | none => do
      let rest ← (Str.stripPrefix "SpanEnter:".toList schemaName).or
        (Str.stripPrefix "SpanExit:".toList schemaName)
      let (beforeLine, lineStr) ← Str.rsplitOnce ':' rest
      let line ← Str.parseUnsigned 32 lineStr
      let fileColonPos ← findFirstSingleColon beforeLine
      let targetName := beforeLine.take fileColonPos
      let file := beforeLine.drop (fileColonPos + 1)
      let (target, name) := (rsplitPath targetName).getD ([], targetName)
      some ⟨target, name, if file = [] then none else some file, some line⟩

/-! ## What the producers write -/

/-- No segment, or several with `::` between them. -/
def IsPath (target : Str) : Prop :=
  ∃ segments : List Str, target = [':', ':'].intercalate segments ∧
    ∀ segment ∈ segments, segment ≠ [] ∧ ':' ∉ segment

def IsName (name : Str) : Prop := name ≠ [] ∧ ':' ∉ name

/-- Any colon but the first character may stand in a file's path. -/
def IsFile (file : Str) : Prop := file ≠ [] ∧ file.head? ≠ some ':'

/-- What follows the prefix. -/
def callsite (target name file : Str) (line : Nat) : Str :=
  target ++ ':' :: ':' :: (name ++ ':' :: (file ++ ':' :: Str.display line))

theorem singleColonFrom_skip {word : Str} (hcolon : ':' ∉ word) (i : Nat) (d : Char) (rest : Str)
    (preceded : Bool) (hword : word ≠ []) :
    singleColonFrom preceded i (word ++ d :: rest) =
      singleColonFrom false (i + word.length) (d :: rest) := by
  induction word generalizing i preceded with
  | nil => exact absurd rfl hword
  | cons c word ih =>
    have hc : c ≠ ':' := fun h => hcolon (h ▸ List.mem_cons_self)
    have hrest : ':' ∉ word := fun h => hcolon (List.mem_cons_of_mem c h)
    cases word with
    | nil =>
      rw [List.singleton_append, singleColonFrom, if_neg hc]
      rfl
    | cons e word =>
      rw [List.cons_append, List.cons_append, singleColonFrom, if_neg hc, ← List.cons_append,
        ih hrest _ _ (List.cons_ne_nil e word), List.length_cons (a := c), Nat.add_right_comm,
        Nat.add_assoc]

/-- The colons of a path all stand in pairs. -/
theorem singleColonFrom_path {segments : List Str}
    (hpath : ∀ segment ∈ segments, segment ≠ [] ∧ ':' ∉ segment) (i : Nat) (tail : Str)
    (preceded : Bool) :
    singleColonFrom preceded i ([':', ':'].intercalate segments ++ ':' :: ':' :: tail) =
      singleColonFrom true (i + ([':', ':'].intercalate segments).length + 2) tail := by
  induction segments generalizing i preceded with
  | nil => rfl
  | cons segment segments ih =>
    obtain ⟨hne, hcolon⟩ := hpath segment List.mem_cons_self
    cases segments with
    | nil =>
      rw [List.intercalate_singleton, singleColonFrom_skip hcolon _ _ _ _ hne]
      rfl
    | cons other segments =>
      rw [List.intercalate_cons_cons, List.append_assoc, List.append_assoc, List.cons_append,
        singleColonFrom_skip hcolon _ _ _ _ hne, List.cons_append, List.nil_append,
        singleColonFrom, if_pos rfl, if_pos rfl,
        ih fun s hs => hpath s (List.mem_cons_of_mem segment hs)]
      simp only [List.length_append, List.length_cons, List.length_nil]
      congr 1
      omega

theorem findFirstSingleColon_callsite {target name file : Str} (htarget : IsPath target)
    (hname : IsName name) (hfile : IsFile file) :
    findFirstSingleColon ((target ++ ':' :: ':' :: name) ++ ':' :: file) =
      some (target ++ ':' :: ':' :: name).length := by
  obtain ⟨segments, rfl, hpath⟩ := htarget
  obtain ⟨c, file, rfl⟩ := List.exists_cons_of_ne_nil hfile.1
  have hc : c ≠ ':' := fun h => hfile.2 (congrArg some h)
  rw [findFirstSingleColon, List.append_assoc, List.cons_append, List.cons_append,
    singleColonFrom_path hpath, singleColonFrom_skip hname.2 _ _ _ _ hname.1, singleColonFrom,
    if_pos rfl, if_neg hc]
  simp only [Bool.false_eq_true, if_false, List.length_append, List.length_cons]
  congr 1
  omega

/-- The name has no colon, so the last `::` stands in front of it. -/
theorem rsplitPath_name {name : Str} (target : Str) (hname : ':' ∉ name) :
    rsplitPath (target ++ ':' :: ':' :: name) = some (target, name) := by
  have hreverse : (target ++ ':' :: ':' :: name).reverse =
      name.reverse ++ (':' :: [':'] ++ target.reverse) := by simp
  rw [rsplitPath, hreverse, Str.splitOnceWord_append (by simpa using hname)]
  simp

theorem rsplitOnce_line (s : Str) (line : Nat) :
    Str.rsplitOnce ':' (s ++ ':' :: Str.display line) = some (s, Str.display line) := by
  have hreverse : (s ++ ':' :: Str.display line).reverse =
      (Str.display line).reverse ++ ':' :: s.reverse := by simp
  have hcolon : ':' ∉ (Str.display line).reverse := by
    rw [List.mem_reverse]
    exact Str.not_mem_display (by decide)
  rw [Str.rsplitOnce, hreverse, Str.splitOnce_append _ _ hcolon]
  simp

/-- A name that a producer writes gives back what it was made of. -/
theorem parseLegacySpanSchemaName_callsite {target name file : Str} {line : Nat}
    (htarget : IsPath target) (hname : IsName name) (hfile : IsFile file) (hline : line < 2 ^ 32)
    {kind : Str} (hkind : kind = "SpanEnter:".toList ∨ kind = "SpanExit:".toList) :
    parseLegacySpanSchemaName (kind ++ callsite target name file line) =
      some ⟨target, name, some file, some line⟩ := by
  have htype : ((Str.stripPrefix "SpanEnter__".toList (kind ++ callsite target name file line)).or
      (Str.stripPrefix "SpanExit__".toList (kind ++ callsite target name file line))) = none := by
    rcases hkind with rfl | rfl <;> rfl
  have hrest : ((Str.stripPrefix "SpanEnter:".toList (kind ++ callsite target name file line)).or
      (Str.stripPrefix "SpanExit:".toList (kind ++ callsite target name file line))) =
        some (callsite target name file line) := by
    rcases hkind with rfl | rfl <;> rfl
  have hsplit : callsite target name file line =
      ((target ++ ':' :: ':' :: name) ++ ':' :: file) ++ ':' :: Str.display line := by
    simp [callsite]
  unfold parseLegacySpanSchemaName
  rw [htype, hrest, hsplit]
  have hdrop : (target ++ ':' :: ':' :: name ++ ':' :: file).drop
      ((target ++ ':' :: ':' :: name).length + 1) = file := by
    rw [List.drop_append, List.drop_eq_nil_of_le (Nat.le_succ _), Nat.add_sub_cancel_left]
    rfl
  simp only [Option.filter_none, Option.bind_eq_bind, Option.bind_some, rsplitOnce_line,
    Str.parseUnsigned_display hline, findFirstSingleColon_callsite htarget hname hfile,
    List.take_left', hdrop, rsplitPath_name target hname.2, if_neg hfile.1, Option.getD_some]

theorem parseLegacySpanSchemaName_callsite_drive :
    parseLegacySpanSchemaName ("SpanExit:".toList ++
      callsite "app::jobs".toList "run".toList "C:\\jobs.rs".toList 42) =
        some ⟨"app::jobs".toList, "run".toList, some "C:\\jobs.rs".toList, some 42⟩ :=
  parseLegacySpanSchemaName_callsite ⟨["app".toList, "jobs".toList], rfl, by decide⟩
    ⟨by decide, by decide⟩ ⟨by decide, by decide⟩ (by decide) (.inr rfl)

end Dial9.Viewer.SpanNames
