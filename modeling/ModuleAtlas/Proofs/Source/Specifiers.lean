import Mathlib
import ModuleAtlas.Grammar.Parse
import ModuleAtlas.Imports
import ModuleAtlas.Proofs.Grammar.Literals
import ModuleAtlas.Proofs.Source.Walk

/-!
# Modules by their names

An import or export names its module by a literal (`ModuleNode`), which is read as one node with the
text of the literal. From that text the name is had back by leaving out the quotes at both ends; but
all of them are left out, of whatever kind, and not just the two of the literal (`unquote_literal`). So
a name comes through unchanged if and only if it neither begins nor ends with a quote itself
(`name_survives_iff`), and the names of all the modules of a file do if and only if this is so of each
of them.
-/

namespace ModuleAtlas.Source

open Grammar (IsLiteral)

variable {quote : Char} {text s : String} {script : Array Char} {t : Tree} {ts : List Tree}
  {ss : List String} {form : String → Item}

/-! ### Quotes at the ends -/

/-- The string neither begins nor ends with a quote of any kind. -/
def Bare (s : String) : Prop :=
  s.toList.head?.any isQuote = false ∧ s.toList.getLast?.any isQuote = false

instance : Decidable (Bare s) := inferInstanceAs (Decidable (_ ∧ _))

theorem toList_unquote (s : String) :
    (unquote s).toList = (s.toList.dropWhile isQuote).rdropWhile isQuote :=
  String.toList_ofList

theorem unquote_eq_self_iff : unquote s = s ↔ Bare s := by
  have hhead : s.toList.dropWhile isQuote = s.toList ↔ s.toList.head?.any isQuote = false := by
    rw [List.dropWhile_eq_self_iff]
    cases s.toList <;> simp
  have hlast : s.toList.rdropWhile isQuote = s.toList ↔ s.toList.getLast?.any isQuote = false := by
    rw [List.rdropWhile_eq_self_iff]
    rcases s.toList.eq_nil_or_concat with hs | ⟨cs, c, hs⟩ <;> simp [hs]
  rw [Bare, ← hhead, ← hlast, ← String.toList_inj, toList_unquote]
  constructor
  · intro h
    have hprefix := List.rdropWhile_prefix isQuote (l := s.toList.dropWhile isQuote)
    rw [h] at hprefix
    -- nothing is left out in front, so that the rest is left out at the end
    have hfront := (List.dropWhile_suffix isQuote).eq_of_length_le hprefix.length_le
    exact ⟨hfront, by rwa [hfront] at h⟩
  · rintro ⟨hfront, hback⟩
    rw [hfront, hback]

/-- All quotes at the ends go, those of the literal and those of the string. -/
theorem unquote_literal (h : IsLiteral quote text s) : unquote text = unquote s := by
  have hquote : isQuote quote = true := by rcases h.isQuote with rfl | rfl <;> rfl
  rw [← String.toList_inj, toList_unquote, toList_unquote, h.toList_eq, List.cons_append,
    List.dropWhile_cons_of_pos hquote, List.dropWhile_append]
  split
  · next hnone =>
    rw [List.isEmpty_iff] at hnone
    rw [hnone, List.dropWhile_cons_of_pos hquote, List.dropWhile_nil]
  · rw [List.rdropWhile_concat_pos _ _ _ hquote]

/-! ### Nodes that name a module -/

/-- The export is of all members, and not under one name. -/
def ExportsAll (t : Tree) : Prop :=
  (∃ c ∈ t.children, c.kind = .token "*") ∧ ∀ c ∈ t.children, c.kind ≠ .namespaceExport

/-- The node names a module in one of the forms there are, by a literal with the given text. -/
inductive ModuleNode (script : Array Char) (t : Tree) : (String → Item) → String → Prop
  | importFrom {text : String} : t.kind = .importStatement →
      t.roleText? script .source = some text → ModuleNode script t .importFrom text
  | importRequire {clause : Tree} {text : String} : t.kind = .importStatement →
      t.roleText? script .source = none → t.childOfKind? .importRequire = some clause →
      clause.roleText? script .source = some text → ModuleNode script t .importFrom text
  | exportFrom {text : String} : t.kind = .exportStatement →
      t.roleText? script .source = some text → ¬ ExportsAll t → ModuleNode script t .exportFrom text
  | exportAll {text : String} : t.kind = .exportStatement →
      t.roleText? script .source = some text → ExportsAll t → ModuleNode script t .exportAll text

/-- The nodes name the modules, one after the other, and each of them by a literal. -/
inductive ModuleNames (script : Array Char) : List Tree → List String → Prop
  | nil : ModuleNames script [] []
  | named {t : Tree} {ts : List Tree} {s : String} {ss : List String} {form : String → Item}
      {text : String} {quote : Char} : ModuleNode script t form text → IsLiteral quote text s →
      ModuleNames script ts ss → ModuleNames script (t :: ts) (s :: ss)
  | unnamed {t : Tree} {ts : List Tree} {ss : List String} :
      (∀ form text, ¬ ModuleNode script t form text) → ModuleNames script ts ss →
      ModuleNames script (t :: ts) ss

theorem exportsAll_iff : (t.children.any (·.kind = .token "*") &&
    !t.children.any (·.kind = .namespaceExport)) = true ↔ ExportsAll t := by
  simp [ExportsAll]

theorem ModuleNode.ofTree?_eq (h : ModuleNode script t form text) :
    Item.ofTree? script t = some (form (unquote text)) := by
  cases h with
  | importFrom hkind htext =>
    simp [Item.ofTree?, Kind.isNamed, Item.importedModule?, hkind, htext]
  | importRequire hkind hnone hclause htext =>
    simp [Item.ofTree?, Kind.isNamed, Item.importedModule?, hkind, hnone, hclause, htext]
  | exportFrom hkind htext hall =>
    rw [← exportsAll_iff] at hall
    simp only [Item.ofTree?, Kind.isNamed, hkind, Bool.not_true, Bool.false_eq_true, if_false,
      Item.ofExport, htext, if_neg hall]
  | exportAll hkind htext hall =>
    rw [← exportsAll_iff] at hall
    simp only [Item.ofTree?, Kind.isNamed, hkind, Bool.not_true, Bool.false_eq_true, if_false,
      Item.ofExport, htext, if_pos hall]

theorem ModuleNode.module?_eq (h : ModuleNode script t form text) (s : String) :
    (form s).module? = some s := by
  cases h <;> rfl

/-- No other nodes name a module. -/
theorem module?_of_not (h : ∀ form text, ¬ ModuleNode script t form text) :
    (Item.ofTree? script t).bind Item.module? = none := by
  rw [Item.ofTree?]
  split
  · rfl
  split
  case h_1 hkind =>
    rw [Item.importedModule?]
    split
    · next text htext => exact absurd (.importFrom hkind htext) (h _ text)
    · next hnone =>
      cases hclause : t.childOfKind? .importRequire with
      | none => rfl
      | some clause =>
        cases htext : clause.roleText? script .source with
        | none => simp [htext]
        | some text => exact absurd (.importRequire hkind hnone hclause htext) (h _ text)
  case h_2 hkind =>
    rw [Item.ofExport]
    split
    · rfl
    · next text htext =>
      by_cases hall : ExportsAll t
      · exact absurd (.exportAll hkind htext hall) (h _ text)
      · exact absurd (.exportFrom hkind htext hall) (h _ text)
  all_goals simp [Option.bind_map, Item.module?]

/-- What is told of the modules of a file are their names without the quotes at the ends. -/
theorem ModuleNames.filterMap_module? (h : ModuleNames script ts ss) :
    (ts.filterMap (Item.ofTree? script)).filterMap Item.module? = ss.map unquote := by
  rw [List.filterMap_filterMap]
  induction h with
  | nil => rfl
  | @named t ts s ss form text quote hnode hliteral _ ih =>
    have hhead : (Item.ofTree? script t).bind Item.module? = some (unquote s) := by
      rw [hnode.ofTree?_eq, unquote_literal hliteral]
      exact hnode.module?_eq _
    simp only [List.filterMap_cons, hhead, ih, List.map_cons]
  | unnamed hnot _ ih => simp only [List.filterMap_cons, module?_of_not hnot, ih]

theorem map_unquote_eq_iff : ss.map unquote = ss ↔ ∀ s ∈ ss, Bare s := by
  induction ss with
  | nil => simp
  | cons s ss ih => simp [unquote_eq_self_iff, ih]

variable {verdict : Verdict} {path : Path} {r : Reading}

theorem localImports_eq_of_reading (h : Reading.of? verdict (.ofPath path) text = .ok r) :
    localImports verdict path text = .ok (localNames r.items) := by
  rw [localImports, h, Except.map]

theorem localImports_eq_of_moduleNames (hread : Reading.of? verdict (.ofPath path) text = .ok r)
    (hnames : ModuleNames r.text.toList.toArray (Cursor.walk r.tree) ss) :
    localImports verdict path text = .ok ((ss.map unquote).filter isLocalName) := by
  rw [localImports_eq_of_reading hread, localNames, Reading.items, itemsOf, hnames.filterMap_module?]

/-- A literal is read as one node, from the text of which the string of the literal is had back if and
only if the string neither begins nor ends with a quote; and so it is with the item of a node that
names its module by the literal. The names of all the modules of a file come through, in the order of
the text and but for those that are no paths, if and only if this is so of each; else it is the names
without their quotes that do. -/
theorem name_survives_iff (verdict : Verdict) :
    (∀ quote text s, IsLiteral quote text s →
      (unquote text = s ↔ Bare s) ∧
      (∀ before after markup p, ∃ t,
        Grammar.quotedText quote ⟨(before ++ text.toList ++ after).toArray, markup⟩ before.length p =
          ([(t, t.stop)], p) ∧
        t.textIn (before ++ text.toList ++ after).toArray = text) ∧
      ∀ script t form, ModuleNode script t form text →
        (Item.ofTree? script t = some (form s) ↔ Bare s)) ∧
    ∀ path text r ss, Reading.of? verdict (.ofPath path) text = .ok r →
      ModuleNames r.text.toList.toArray (Cursor.walk r.tree) ss →
        (r.items.filterMap Item.module? = ss ↔ ∀ s ∈ ss, Bare s) ∧
        localImports verdict path text = .ok ((ss.map unquote).filter isLocalName) ∧
        ((∀ s ∈ ss, Bare s) → localImports verdict path text = .ok (ss.filter isLocalName)) := by
  refine ⟨fun quote text s hliteral => ⟨?_, Grammar.exists_quotedText hliteral, ?_⟩, ?_⟩
  · rw [unquote_literal hliteral, unquote_eq_self_iff]
  · intro script t form hnode
    rw [hnode.ofTree?_eq, unquote_literal hliteral, ← unquote_eq_self_iff]
    constructor
    · intro hform
      have hmodule := congrArg (Option.bind · Item.module?) hform
      simpa only [Option.bind_some, hnode.module?_eq, Option.some.injEq] using hmodule
    · intro hs
      rw [hs]
  · intro path text r ss hread hnames
    have hlocal := localImports_eq_of_moduleNames hread hnames
    have hitems : r.items.filterMap Item.module? = ss.map unquote := hnames.filterMap_module?
    refine ⟨by rw [hitems, map_unquote_eq_iff], hlocal, fun hbare => ?_⟩
    rw [hlocal, map_unquote_eq_iff.2 hbare]

/-! ### A script of one import -/

/-- The import of a module, from `import` to the end of its name. -/
def importNode (stop : Nat) : Tree :=
  .node ⟨.importStatement, none, 0, stop⟩
    [.leaf (.token "import") 0 6, .node ⟨.literal, some .source, 7, stop⟩ []]

/-- The tree of a script that has one import and nothing else. -/
def importTree (stop : Nat) : Tree := .node ⟨.program, none, 0, stop⟩ [importNode stop]

theorem walk_importTree (stop : Nat) : Cursor.walk (importTree stop) =
    [importTree stop, importNode stop, .leaf (.token "import") 0 6,
      .node ⟨.literal, some .source, 7, stop⟩ []] :=
  Cursor.walk_eq_preorder _

theorem not_moduleNode (himport : t.kind ≠ .importStatement) (hexport : t.kind ≠ .exportStatement)
    (form : String → Item) (text : String) : ¬ ModuleNode script t form text := by
  intro h
  cases h <;> contradiction

/-- The import names its module. -/
theorem moduleNode_importNode (text : String) :
    ModuleNode ("import ".toList ++ text.toList ++ []).toArray
      (importNode ("import ".toList.length + text.toList.length)) .importFrom text :=
  .importFrom rfl (congrArg some (Grammar.textIn_append rfl rfl []))

theorem moduleNames_importTree (h : IsLiteral quote text s) :
    ModuleNames ("import ".toList ++ text.toList ++ []).toArray
      (Cursor.walk (importTree ("import ".toList.length + text.toList.length))) [s] := by
  rw [walk_importTree]
  refine .unnamed (not_moduleNode ?_ ?_) (.named (moduleNode_importNode text) h
    (.unnamed (not_moduleNode ?_ ?_) (.unnamed (not_moduleNode ?_ ?_) .nil))) <;>
  exact Kind.noConfusion

/-- In `import "./a"` the name comes through. -/
theorem name_survives_iff_import :
    IsLiteral '"' "\"./a\"" "./a" ∧ Bare "./a" ∧ unquote "\"./a\"" = "./a" ∧
    Item.ofTree? "import \"./a\"".toList.toArray (importNode 12) = some (.importFrom "./a") ∧
    localImports (fun _ _ => .ok (importTree 12)) (.ofString "a.ts") "import \"./a\"" =
      .ok ["./a"] := by
  have hliteral : IsLiteral '"' "\"./a\"" "./a" := ⟨.inl rfl, rfl, by simp [Grammar.endsLine]⟩
  have hbare : Bare "./a" := by decide
  obtain ⟨hone, hall⟩ := name_survives_iff fun _ _ => .ok (importTree 12)
  obtain ⟨htext, -, hitem⟩ := hone _ _ _ hliteral
  have hnames := (hall (.ofString "a.ts") "import \"./a\"" _ _ rfl (moduleNames_importTree hliteral)).2.2
  exact ⟨hliteral, hbare, htext.2 hbare, (hitem _ _ _ (moduleNode_importNode _)).2 hbare,
    hnames (by simpa using hbare)⟩

theorem verdict_plain (h : Grammar.read? false text.toList.toArray = .ok t) :
    Grammar.verdict .plain text = .ok t := by
  have hmarkup : decide (Dialect.plain = .markup) = false := rfl
  unfold Grammar.verdict
  dsimp only
  rw [hmarkup, h]

theorem read?_import_quote :
    Grammar.read? false "import \"./a'\"".toList.toArray = .ok (importTree 13) := by cbv

/-- In `import "./a'"` the quote that belongs to the name is lost with the others. -/
theorem name_lost_at_quote :
    IsLiteral '"' "\"./a'\"" "./a'" ∧ unquote "\"./a'\"" = "./a" ∧
    localImports Grammar.verdict (.ofString "a.ts") "import \"./a'\"" = .ok ["./a"] := by
  have hliteral : IsLiteral '"' "\"./a'\"" "./a'" := ⟨.inl rfl, rfl, by simp [Grammar.endsLine]⟩
  have hplain : Dialect.ofPath (.ofString "a.ts") = .plain := by cbv
  have hread : Reading.of? Grammar.verdict (.ofPath (.ofString "a.ts")) "import \"./a'\"" =
      .ok ⟨"import \"./a'\"", .plain, importTree 13⟩ := by
    rw [hplain, Reading.of?, verdict_plain read?_import_quote]
  exact ⟨hliteral, by decide, localImports_eq_of_moduleNames hread (moduleNames_importTree hliteral)⟩

end ModuleAtlas.Source
