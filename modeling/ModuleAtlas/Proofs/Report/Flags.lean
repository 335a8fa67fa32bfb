import ModuleAtlas.Report.Records

/-!
# Flags in reports

Two reports that are the same but for a flag are written differently (`Data.write_flag_inj`): what
is written for the fields before it and behind it can be taken away (`intercalate_inj`). So it can be
read off the report on a file whether there are tests in it (`write_isTest_inj`).
-/

namespace ModuleAtlas.Report

theorem intercalate_inj (separator : String) (front behind : List String) {x y : String} :
    separator.intercalate (front ++ x :: behind) = separator.intercalate (front ++ y :: behind) ↔
      x = y := by
  induction front with
  | nil =>
    cases behind with
    | nil => simp
    | cons z rest =>
      rw [List.nil_append, List.nil_append, String.intercalate_cons_cons,
        String.intercalate_cons_cons, String.append_assoc, String.append_assoc,
        String.append_left_inj]
  | cons z front ih =>
    rw [List.cons_append, List.cons_append, String.intercalate_cons_of_ne_nil (by simp),
      String.intercalate_cons_of_ne_nil (by simp), String.append_right_inj, ih]

namespace Data

variable {b c : Bool} {level : Nat}

theorem compactFields_eq_map (fields : List (String × Data)) :
    compactFields fields = fields.map fun (name, d) => quoted name ++ ":" ++ d.compact := by
  induction fields with
  | nil => rfl
  | cons f rest ih => rw [compactFields, ih, List.map_cons]

theorem indentedFields_eq_map (level : Nat) (fields : List (String × Data)) :
    indentedFields level fields =
      fields.map fun (name, d) => quoted name ++ ": " ++ d.indented level := by
  induction fields with
  | nil => rfl
  | cons f rest ih => rw [indentedFields, ih, List.map_cons]

theorem compact_flag_inj : (flag b).compact = (flag c).compact ↔ b = c := by
  cases b <;> cases c <;> decide

/-- Two reports that differ in a flag are written differently. -/
theorem write_flag_inj (front behind : List (String × Data)) (name : String) (isPretty : Bool) :
    (record (front ++ (name, flag b) :: behind)).write isPretty =
      (record (front ++ (name, flag c) :: behind)).write isPretty ↔ b = c := by
  cases isPretty with
  | false =>
    simp only [write, Bool.false_eq_true, if_false, compact, compactFields_eq_map, List.map_append,
      List.map_cons, String.append_left_inj, String.append_right_inj, intercalate_inj]
    exact compact_flag_inj
  | true =>
    simp only [write, if_true, pretty, indented, block, indentedFields_eq_map, List.map_append,
      List.map_cons, List.isEmpty_iff, List.append_eq_nil_iff, reduceCtorEq, and_false, if_false,
      String.append_left_inj, String.append_right_inj, intercalate_inj]
    exact compact_flag_inj

end Data

/-! ### Reports on files -/

/-- What a report on a file says before it says whether there are tests in it. -/
def fieldsBeforeTest (m : FileMetrics) : List (String × Data) :=
  [("functionCount", .count m.functions), ("classCount", .count m.classes),
    ("interfaceCount", .count m.interfaces), ("typeAliasCount", .count m.typeAliases),
    ("exportCount", .count m.exports), ("importCount", .count m.imports),
    ("complexity", .count m.complexity), ("linesOfCode", .count m.linesOfCode),
    ("isComponent", .flag m.isComponent), ("isConfig", .flag m.isConfig)]

/-- What it says after that. -/
def fieldsAfterTest (m : FileMetrics) : List (String × Data) :=
  ("usesTypes", .flag m.usesTypes) :: m.fault.toList.map fun f => ("parseError", .text f.message)

theorem ofMetrics_eq (m : FileMetrics) :
    ofMetrics m = .record (fieldsBeforeTest m ++ ("isTest", .flag m.isTest) :: fieldsAfterTest m) := by
  rw [ofMetrics, fieldsBeforeTest, fieldsAfterTest]
  cases m.fault <;> rfl

theorem write_isTest_inj (m : FileMetrics) (isPretty b c : Bool) :
    (ofMetrics { m with isTest := b }).write isPretty =
      (ofMetrics { m with isTest := c }).write isPretty ↔ b = c := by
  rw [ofMetrics_eq, ofMetrics_eq]
  exact Data.write_flag_inj (fieldsBeforeTest m) (fieldsAfterTest m) "isTest" isPretty

end ModuleAtlas.Report
