/-
# Specifiers of imports and exports

Behind its keyword, an import or export writes clauses: a name for a default, `* as name`
for a namespace, and in braces the other names, with a comma between any two. Read by this
rule (`readClauses`), what is written gives the clauses of the specifiers back, those in
braces in their order.

There is room for one default and one namespace, and a specifier of such a kind takes the
place of the one before it. So what is written is the last default, the last namespace and
all other names (`Clause.grouped`), which is every specifier only if no kind is named twice
(`specifiers_read_back`). Imports refuse a second default; a second namespace, and a second
default of an export, replace the first without an error (`second_namespace_is_lost`).

Key definitions: `Clause`, `readClauses`, `Clause.grouped`, `SpecifierGroups.Holds`,
`WritesClauses`.
Key theorems: `readClauses_clauseTokens`, `Clause.grouped_perm_iff`,
`SpecifierGroups.Holds.addExports`, `specifiers_read_back`.
-/
import EcmaPrinter.Proofs.Emit.Outline
import Mathlib.Data.List.Perm.Basic

namespace EcmaPrinter

open Doc Emit

/-! ### Clauses -/

/-- What an import or export says about one name. -/
inductive Clause where
  /-- `name`, in front of any braces. -/
  | default (name : Ident)
  /-- `* as name` -/
  | star (name : Ident)
  /-- `name`, or `name as other`, in braces. -/
  | named (name : Ident) (other : Option Ident)

namespace Clause

def isDefault : Clause → Bool
  | .default _ => true
  | _ => false

def isStar : Clause → Bool
  | .star _ => true
  | _ => false

def isNamed : Clause → Bool
  | .named _ _ => true
  | _ => false

end Clause

/-- The clause of an import specifier, in which the imported name comes first. -/
def ImportSpecifier.clause : ImportSpecifier → Clause
  | .default _ binding => .default binding
  | .star _ binding => .star binding
  | .named _ binding none => .named binding none
  | .named _ binding (some imported) => .named imported (some binding)

def ExportSpecifier.clause : ExportSpecifier → Clause
  | .default _ exported => .default exported
  | .star _ name => .star name
  | .named _ name exported => .named name exported

/-! ### Reading clauses -/

/-- What clauses are written with. Names are taken as wholes. -/
inductive ClauseToken where
  | blank
  | comma
  | opening
  | closing
  | star
  | alias
  | name (n : Ident)

namespace ClauseToken

def isBlank : ClauseToken → Bool
  | .blank => true
  | _ => false

/-- The texts of a token, of which a name may have a mark behind it. -/
def texts : ClauseToken → List String
  | .blank => [" "]
  | .comma => [","]
  | .opening => ["\x7b"]
  | .closing => ["\x7d"]
  | .star => ["*"]
  | .alias => ["as"]
  | .name n => n.name :: if n.isOptional then ["?"] else []

/-- Some tokens without the blanks. -/
def visible (ts : List ClauseToken) : List ClauseToken := ts.filter fun t => !t.isBlank

@[simp] theorem visible_append (ts us : List ClauseToken) :
    visible (ts ++ us) = visible ts ++ visible us :=
  List.filter_append ..

@[simp] theorem visible_cons (t : ClauseToken) (ts : List ClauseToken) :
    visible (t :: ts) = if t.isBlank then visible ts else t :: visible ts := by
  cases t <;> rfl

end ClauseToken

/-- The clauses up to a closing brace, which ends what is read. -/
def readNamed : List ClauseToken → Option (List Clause)
  | [.closing] => some []
  | [.name n, .closing] => some [.named n none]
  | [.name n, .alias, .name m, .closing] => some [.named n (some m)]
  | .name n :: .comma :: ts => (readNamed ts).map (.named n none :: ·)
  | .name n :: .alias :: .name m :: .comma :: ts => (readNamed ts).map (.named n (some m) :: ·)
  | _ => none

/-- The clauses that some tokens other than blanks stand for. Two of them need a comma
between them, and braces come last. -/
def readClauses : List ClauseToken → Option (List Clause)
  | [] => some []
  | [.name n] => some [.default n]
  | [.star, .alias, .name n] => some [.star n]
  | .opening :: ts => readNamed ts
  | .name n :: .comma :: t :: ts => (readClauses (t :: ts)).map (.default n :: ·)
  | .star :: .alias :: .name n :: .comma :: t :: ts =>
    (readClauses (t :: ts)).map (.star n :: ·)
  | _ => none

/-- How a clause is written. -/
def Clause.tokens : Clause → List ClauseToken
  | .default n => [.blank, .name n]
  | .star n => [.star, .alias, .blank, .name n]
  | .named n none => [.name n]
  | .named n (some m) => [.name n, .blank, .alias, .blank, .name m]

/-- How the clauses in braces are written. -/
def namedTokens (named : List Clause) : List ClauseToken :=
  List.intercalate [.comma] (named.map Clause.tokens) ++ [.closing]

/-- How a default, a namespace and names in braces are written. -/
def clauseTokens (default star : Option Ident) (named : List Clause) (hasBraces : Bool) :
    List ClauseToken :=
  List.intercalate [.comma]
    (default.toList.map (fun n => (Clause.default n).tokens)
      ++ star.toList.map (fun n => (Clause.star n).tokens)
      ++ if hasBraces then [.opening :: namedTokens named] else [])

theorem readNamed_namedTokens : ∀ {named : List Clause}, named.all Clause.isNamed = true →
    readNamed (ClauseToken.visible (namedTokens named)) = some named
  | [], _ => rfl
  | [.named _ none], _ | [.named _ (some _)], _ => rfl
  | .named n other :: c :: named, h => by
    have ih : readNamed (ClauseToken.visible (namedTokens (c :: named))) = some (c :: named) :=
      readNamed_namedTokens h
    have hcons : namedTokens (.named n other :: c :: named) =
        (Clause.named n other).tokens ++ .comma :: namedTokens (c :: named) := by
      simp [namedTokens, List.intercalate_cons_cons]
    rw [hcons]
    cases other <;> simp [Clause.tokens, ClauseToken.isBlank, readNamed, ih]

/-- **What is written reads back as the clauses**, in their order. -/
theorem readClauses_clauseTokens (default star : Option Ident) {named : List Clause}
    {hasBraces : Bool} (h : named.all Clause.isNamed = true)
    (hbraces : hasBraces = false → named = []) :
    readClauses (ClauseToken.visible (clauseTokens default star named hasBraces)) =
      some (default.toList.map .default ++ star.toList.map .star ++ named) := by
  have hread := readNamed_namedTokens h
  cases hasBraces with
  | false =>
    rw [hbraces rfl]
    cases default <;> cases star <;> rfl
  | true =>
    cases default <;> cases star <;>
      simp [clauseTokens, Clause.tokens, ClauseToken.isBlank, readClauses, hread,
        List.intercalate_cons_cons]

/-! ### Texts of documents -/

def Step.text? : Step → Option String
  | .text s => some s
  | _ => none

namespace Doc

/-- The texts that a document writes in both modes, layout and comments left out. -/
def texts (d : Doc) : List String := d.steps.filterMap Step.text?

/-- The texts of a document are in its outline. -/
theorem texts_eq (d : Doc) : d.texts = d.outline.filterMap Step.text? := by
  rw [outline, List.filterMap_filterMap]
  refine List.filterMap_congr fun s _ => ?_
  cases s <;> rfl

@[simp] theorem texts_append (a b : Doc) : (a ++ b).texts = a.texts ++ b.texts :=
  List.filterMap_append

@[simp] theorem texts_text (s : String) : (text s).texts = [s] := rfl

@[simp] theorem texts_empty : empty.texts = [] := rfl

@[simp] theorem texts_softSpace : softSpace.texts = [] := rfl

@[simp] theorem texts_space : space.texts = [" "] := rfl

@[simp] theorem texts_mark (span : Span) : (mark span).texts = [] := rfl

@[simp] theorem texts_when (b : Bool) (d : Doc) : (when b d).texts = if b then d.texts else [] := by
  cases b <;> rfl

@[simp] theorem texts_spaceIf (b : Bool) : (spaceIf b).texts = if b then [" "] else [] := by
  cases b <;> rfl

@[simp] theorem texts_ident (name : Ident) :
    (ident name).texts = (ClauseToken.name name).texts := by
  obtain ⟨span, name, isOptional, typing⟩ := name
  cases typing <;> cases isOptional <;> rfl

/-- What respects putting lists together respects putting them together with a separator. -/
theorem map_intercalate {α β : Type} {h : List α → List β} (hnil : h [] = [])
    (happend : ∀ as bs, h (as ++ bs) = h as ++ h bs) (separator : List α) :
    ∀ parts : List (List α),
      h (List.intercalate separator parts) = List.intercalate (h separator) (parts.map h)
  | [] => by simp [hnil]
  | [part] => by simp
  | part :: next :: parts => by
    have ih := map_intercalate hnil happend separator (next :: parts)
    rw [List.map_cons] at ih
    rw [List.intercalate_cons_cons, happend, happend, ih, List.map_cons, List.map_cons,
      List.intercalate_cons_cons]

theorem texts_braces (parent : Span) (items : List Item) :
    (list parent ListFormat.namedImportsOrExportsElements items).texts =
      "\x7b" :: (List.intercalate [","] (items.map fun item => item.doc.texts) ++ ["\x7d"]) := by
  have hitems : (outlines items).map (List.filterMap Step.text?) =
      items.map fun item => item.doc.texts := by
    simp [outlines, texts_eq]
  have hlist : listOutline ListFormat.namedImportsOrExportsElements (outlines items) =
      .text "\x7b" :: (List.intercalate [.text ","] (outlines items) ++ [.text "\x7d"]) := by
    have hshown : ListFormat.namedImportsOrExportsElements.isOptionalIfEmpty = false := rfl
    rw [listOutline, hshown, Bool.and_false, if_neg Bool.false_ne_true]
    rfl
  rw [texts_eq, outline_list, hlist, ← hitems]
  simp only [List.filterMap_cons, List.filterMap_append, List.filterMap_nil, Step.text?,
    map_intercalate (h := List.filterMap Step.text?) rfl fun _ _ => List.filterMap_append]

end Doc

/-! ### Groups -/

namespace Clause

/-- The texts of a clause. -/
def texts (c : Clause) : List String := c.tokens.flatMap ClauseToken.texts

end Clause

namespace SpecifierGroups

@[simp] theorem texts_importItem (span : Span) (binding : Ident) (imported : Option Ident) :
    (importItem span binding imported).doc.texts =
      (ImportSpecifier.named span binding imported).clause.texts := by
  cases imported <;>
    simp [importItem, ImportSpecifier.clause, Clause.texts, Clause.tokens, ClauseToken.texts]

@[simp] theorem texts_exportItem (span : Span) (name : Ident) (exported : Option Ident) :
    (exportItem span name exported).doc.texts =
      (ExportSpecifier.named span name exported).clause.texts := by
  cases exported <;>
    simp [exportItem, ExportSpecifier.clause, Clause.texts, Clause.tokens, ClauseToken.texts]

/-- Groups hold what there is room for of some clauses: the last default, the last
namespace, and the names in braces in their order. -/
structure Holds (g : SpecifierGroups) (cs : List Clause) : Prop where
  default : g.default.map .default = (cs.filter Clause.isDefault).getLast?
  star : g.star.map .star = (cs.filter Clause.isStar).getLast?
  named : g.named.map (fun item => item.doc.texts) = (cs.filter Clause.isNamed).map Clause.texts

theorem holds_empty : empty.Holds [] := ⟨rfl, rfl, rfl⟩

namespace Holds

variable {g : SpecifierGroups} {cs : List Clause}

/-- A default takes the place of the one before it. -/
theorem addDefault (h : g.Holds cs) (name : Ident) :
    Holds { g with default := some name } (cs ++ [.default name]) where
  default := by simp [Clause.isDefault]
  star := by simpa [Clause.isStar] using h.star
  named := by simpa [Clause.isNamed] using h.named

/-- A namespace takes the place of the one before it. -/
theorem addStar (h : g.Holds cs) (name : Ident) :
    Holds { g with star := some name } (cs ++ [.star name]) where
  default := by simpa [Clause.isDefault] using h.default
  star := by simp [Clause.isStar]
  named := by simpa [Clause.isNamed] using h.named

/-- A name in braces comes behind those before it. -/
theorem addNamed (h : g.Holds cs) {item : Item} {c : Clause} (hc : c.isNamed = true)
    (hitem : item.doc.texts = c.texts) :
    Holds { g with named := g.named ++ [item] } (cs ++ [c]) := by
  cases c with
  | default _ | star _ => cases hc
  | named name other =>
    refine ⟨?_, ?_, ?_⟩
    · simpa [Clause.isDefault] using h.default
    · simpa [Clause.isStar] using h.star
    · rw [List.filter_append, List.map_append, List.map_append, h.named, List.map_singleton, hitem]
      rfl

/-- Import specifiers are put into groups, and none of them is a default. -/
theorem addImports {g' : SpecifierGroups} : ∀ {specifiers : List ImportSpecifier}
    {g : SpecifierGroups} {cs : List Clause}, g.Holds cs →
    SpecifierGroups.addImports g specifiers = some g' →
      g'.Holds (cs ++ specifiers.map ImportSpecifier.clause) ∧
        (specifiers.map ImportSpecifier.clause).countP Clause.isDefault = 0
  | [], g, cs, h, hg => by
    cases hg
    simpa using h
  | .default _ _ :: _, _, _, _, hg => nomatch hg
  | .star _ binding :: rest, g, cs, h, hg => by
    rw [List.map_cons, List.append_cons]
    exact (h.addStar binding).addImports hg
  | .named span binding imported :: rest, g, cs, h, hg => by
    have hnamed : (ImportSpecifier.named span binding imported).clause.isNamed = true := by
      cases imported <;> rfl
    obtain ⟨hholds, hcount⟩ :=
      (h.addNamed hnamed (texts_importItem span binding imported)).addImports hg
    rw [List.map_cons, List.append_cons]
    cases imported <;> exact ⟨hholds, hcount⟩

/-- **The groups of an import hold its specifiers**, at most one of which is a default. -/
theorem ofImports {specifiers : List ImportSpecifier} (hg : ofImports? specifiers = some g) :
    g.Holds (specifiers.map ImportSpecifier.clause) ∧
      (specifiers.map ImportSpecifier.clause).countP Clause.isDefault ≤ 1 := by
  unfold ofImports? at hg
  split at hg
  · rename_i span binding rest
    obtain ⟨hholds, hcount⟩ := (holds_empty.addDefault binding).addImports hg
    refine ⟨hholds, ?_⟩
    rw [List.map_cons, List.countP_cons_of_pos rfl, hcount]
  · obtain ⟨hholds, hcount⟩ := holds_empty.addImports hg
    exact ⟨hholds, by omega⟩

/-- **The groups of an export hold its specifiers.** -/
theorem addExports : ∀ (specifiers : List ExportSpecifier) {g : SpecifierGroups}
    {cs : List Clause}, g.Holds cs →
    (SpecifierGroups.addExports g specifiers).Holds (cs ++ specifiers.map ExportSpecifier.clause)
  | [], _, cs, h => by
    rw [List.map_nil, List.append_nil]
    exact h
  | .default _ exported :: rest, _, cs, h => by
    rw [List.map_cons, List.append_cons]
    exact addExports rest (h.addDefault exported)
  | .star _ name :: rest, _, cs, h => by
    rw [List.map_cons, List.append_cons]
    exact addExports rest (h.addStar name)
  | .named span name exported :: rest, _, cs, h => by
    rw [List.map_cons, List.append_cons]
    exact addExports rest (h.addNamed rfl (texts_exportItem span name exported))

end Holds

variable {g : SpecifierGroups} {cs : List Clause}

theorem Holds.texts_namedClause (h : g.Holds cs) (span : Span) (isAfterGroup : Bool) :
    (namedClause span isAfterGroup g.named).texts =
      (if isAfterGroup then [","] else []) ++
        (.opening :: namedTokens (cs.filter Clause.isNamed)).flatMap ClauseToken.texts := by
  have hitems : g.named.map (fun item => item.doc.texts) =
      ((cs.filter Clause.isNamed).map Clause.tokens).map (List.flatMap ClauseToken.texts) := by
    rw [h.named, List.map_map]
    rfl
  have hcommas := map_intercalate (h := List.flatMap ClauseToken.texts) rfl
    (fun _ _ => List.flatMap_append) [.comma] ((cs.filter Clause.isNamed).map Clause.tokens)
  rw [namedClause, texts_append, texts_braces, hitems, List.flatMap_cons, namedTokens,
    List.flatMap_append, hcommas]
  cases isAfterGroup <;> rfl

/-- **Groups are written as the clauses that they hold.** -/
theorem Holds.texts_clauses (h : g.Holds cs) (span : Span) (hasBraces : Bool) :
    (defaultClause g.default ++ starClause g.default.isSome g.star
      ++ when hasBraces (namedClause span g.hasName g.named)).texts =
      (clauseTokens g.default g.star (cs.filter Clause.isNamed) hasBraces).flatMap
        ClauseToken.texts := by
  have hnamed := h.texts_namedClause span
  cases hdefault : g.default <;> cases hstar : g.star <;> cases hasBraces <;>
    simp [hdefault, hstar, hnamed, hasName, defaultClause, starClause, groupGap, clauseTokens,
      Clause.tokens, ClauseToken.texts, List.intercalate_cons_cons]

end SpecifierGroups

/-! ### Kinds of clauses -/

theorem toList_getLast?_of_le {α : Type} : ∀ {l : List α}, l.length ≤ 1 → l.getLast?.toList = l
  | [], _ | [_], _ => rfl
  | _ :: _ :: _, h => absurd h (by simp)

theorem length_toList_getLast? {α : Type} (l : List α) :
    l.getLast?.toList.length = min 1 l.length := by
  cases l with
  | nil => rfl
  | cons a l =>
    rw [List.getLast?_cons, Option.toList_some, List.length_singleton, List.length_cons]
    omega

namespace Clause

/-- The clauses that there is room for, in the order in which they are written: the last
default, the last namespace, and all that stand in braces. -/
def grouped (cs : List Clause) : List Clause :=
  (cs.filter isDefault).getLast?.toList ++ (cs.filter isStar).getLast?.toList
    ++ cs.filter isNamed

/-- Each clause is of one kind. -/
theorem kinds_perm (cs : List Clause) :
    (cs.filter isDefault ++ cs.filter isStar ++ cs.filter isNamed).Perm cs := by
  have hstar : (cs.filter fun c => !c.isDefault).filter isStar = cs.filter isStar := by
    rw [List.filter_filter]
    exact List.filter_congr fun c _ => by cases c <;> rfl
  have hnamed : ((cs.filter fun c => !c.isDefault).filter fun c => !c.isStar) =
      cs.filter isNamed := by
    rw [List.filter_filter]
    exact List.filter_congr fun c _ => by cases c <;> rfl
  have hothers := List.filter_append_perm isStar (cs.filter fun c => !c.isDefault)
  rw [hstar, hnamed] at hothers
  rw [List.append_assoc]
  exact (hothers.append_left _).trans (List.filter_append_perm isDefault cs)

theorem grouped_length_eq_iff (cs : List Clause) :
    (grouped cs).length = cs.length ↔ cs.countP isDefault ≤ 1 ∧ cs.countP isStar ≤ 1 := by
  have hall := (kinds_perm cs).length_eq
  rw [List.length_append, List.length_append] at hall
  rw [grouped, List.length_append, List.length_append, length_toList_getLast?,
    length_toList_getLast?, List.countP_eq_length_filter, List.countP_eq_length_filter]
  omega

/-- **No clause is left out if and only if there is room for all of them.** -/
theorem grouped_perm_iff (cs : List Clause) :
    (grouped cs).Perm cs ↔ cs.countP isDefault ≤ 1 ∧ cs.countP isStar ≤ 1 := by
  constructor
  · intro h
    exact (grouped_length_eq_iff cs).mp h.length_eq
  · rintro ⟨hdefault, hstar⟩
    rw [List.countP_eq_length_filter] at hdefault hstar
    rw [grouped, toList_getLast?_of_le hdefault, toList_getLast?_of_le hstar]
    exact kinds_perm cs

end Clause

namespace SpecifierGroups

/-- What is read back from groups. -/
theorem Holds.grouped {g : SpecifierGroups} {cs : List Clause} (h : g.Holds cs) :
    g.default.toList.map .default ++ g.star.toList.map .star ++ cs.filter Clause.isNamed =
      Clause.grouped cs := by
  rw [Clause.grouped, ← h.default, ← h.star, Option.toList_map, Option.toList_map]

theorem Holds.isEmpty_named {g : SpecifierGroups} {cs : List Clause} (h : g.Holds cs) :
    g.named.isEmpty = (cs.filter Clause.isNamed).isEmpty := by
  have hmap := congrArg List.isEmpty h.named
  rwa [List.isEmpty_map, List.isEmpty_map] at hmap

end SpecifierGroups

/-! ### Imports and exports -/

/-- From `start` to `stop`, a printer writes a keyword, clauses that are read back as the
given ones, and what stands behind them, with layout and comments around each text. -/
def WritesClauses (start : Printer) (keyword : String) (clauses : List Clause)
    (behind : List String) (stop : Printer) : Prop :=
  ∃ ss tokens, stop = start.perform ss ∧
    ss.filterMap Step.text? = keyword :: (tokens.flatMap ClauseToken.texts ++ behind) ∧
    readClauses (ClauseToken.visible tokens) = some clauses

/-- What an import writes behind its clauses. -/
def importEnd (specifiers : List ImportSpecifier) (source : StringLit) : List String :=
  (if specifiers.isEmpty then [] else ["from"]) ++ [Text.quoted source.value, ";"]

/-- What an export writes behind its clauses. -/
def exportEnd (source : Option StringLit) : List String :=
  (source.elim [] fun source => ["from", Text.quoted source.value]) ++ [";"]

namespace SpecifierGroups.Holds

variable {g : SpecifierGroups} {cs : List Clause}

/-- The clauses of groups are read back if braces are written where there are names in
them, with or without a blank behind. -/
theorem readClauses_eq (h : g.Holds cs) (hasBraces hasBlank : Bool)
    (hbraces : hasBraces = false → g.named.isEmpty = true) :
    readClauses (ClauseToken.visible
      (clauseTokens g.default g.star (cs.filter Clause.isNamed) hasBraces
        ++ if hasBlank then [.blank] else [])) = some (Clause.grouped cs) := by
  have hnamed : (cs.filter Clause.isNamed).all Clause.isNamed = true := by simp
  have hempty : hasBraces = false → cs.filter Clause.isNamed = [] := fun hb =>
    List.isEmpty_iff.mp (h.isEmpty_named.symm.trans (hbraces hb))
  have hblank : ClauseToken.visible (if hasBlank then [.blank] else []) = [] := by
    cases hasBlank <;> rfl
  rw [ClauseToken.visible_append, hblank, List.append_nil,
    readClauses_clauseTokens _ _ hnamed hempty, h.grouped]

end SpecifierGroups.Holds

/-- An import that does not fail writes the clauses of its groups. -/
theorem importDecl_writesClauses (span : Span) (specifiers : List ImportSpecifier)
    (source : StringLit) (h : (importDecl span specifiers source).failure? = none) (p : Printer) :
    WritesClauses p "import" (Clause.grouped (specifiers.map ImportSpecifier.clause))
        (importEnd specifiers source) (p.perform (importDecl span specifiers source).steps) ∧
      (specifiers.map ImportSpecifier.clause).countP Clause.isDefault ≤ 1 := by
  cases specifiers with
  | nil => exact ⟨⟨_, [], rfl, rfl, rfl⟩, by simp⟩
  | cons s rest =>
    cases hg : SpecifierGroups.ofImports? (s :: rest) with
    | none =>
      have hfail : (importDecl span (s :: rest) source).failure? =
          some (.contract .lateDefaultImport) := by
        rw [importDecl, hg]
        rfl
      cases hfail.symm.trans h
    | some g =>
      obtain ⟨hholds, hcount⟩ := SpecifierGroups.Holds.ofImports hg
      have hread := hholds.readClauses_eq (!g.named.isEmpty) (g.hasName && g.named.isEmpty)
        (by simp)
      refine ⟨⟨_, _, rfl, ?_, hread⟩, hcount⟩
      change (importDecl span (s :: rest) source).texts = _
      have htexts := hholds.texts_clauses span (!g.named.isEmpty)
      simp only [importDecl, hg, List.isEmpty_cons, Bool.false_eq_true, ↓reduceIte, texts_append,
        texts_text] at htexts ⊢
      rw [htexts]
      cases hblank : g.hasName && g.named.isEmpty <;>
        simp [fromClause, str, importEnd, ClauseToken.texts]

/-- An export writes the clauses of its groups. -/
theorem exportNamed_writesClauses (span : Span) (specifiers : List ExportSpecifier)
    (source : Option StringLit) (p : Printer) :
    WritesClauses p "export" (Clause.grouped (specifiers.map ExportSpecifier.clause))
      (exportEnd source) (p.perform (exportNamed span specifiers source).steps) := by
  obtain ⟨g, hg, hholds⟩ : ∃ g, SpecifierGroups.ofExports specifiers = g ∧
      g.Holds (specifiers.map ExportSpecifier.clause) :=
    ⟨_, rfl, SpecifierGroups.Holds.addExports specifiers SpecifierGroups.holds_empty⟩
  obtain ⟨hasBraces, hbraces⟩ : ∃ b, (!g.named.isEmpty || !g.hasName) = b := ⟨_, rfl⟩
  -- a name in front of `from` needs a blank, at the end it does not
  have hread := hholds.readClauses_eq hasBraces (source.isSome && !hasBraces) (by
    rintro rfl
    simpa using (Bool.or_eq_false_iff.mp hbraces).1)
  refine ⟨_, _, rfl, ?_, hread⟩
  change (exportNamed span specifiers source).texts = _
  have htexts := hholds.texts_clauses span hasBraces
  rw [List.flatMap_append, ← htexts]
  cases source <;> cases hasBraces <;>
    simp [exportNamed, hg, hbraces, fromClause, str, exportEnd, ClauseToken.texts]

/-- **Every clause that there is room for is written, and no other.** What an import or
export that does not fail writes at any printer reads back as the last default, the last
namespace and all names in braces in their order. These are the clauses of all its
specifiers, and as many, if and only if no more than one of them is a namespace and, for
exports, no more than one a default. -/
theorem specifiers_read_back (p : Printer) :
    (∀ (span : Span) (specifiers : List ImportSpecifier) (source : StringLit),
      let d := ModuleDecl.importDecl span specifiers source
      let clauses := specifiers.map ImportSpecifier.clause
      let hasRoom := clauses.countP Clause.isStar ≤ 1
      (d.emit.run p).2 = none →
        WritesClauses (p.step (.mark span)) "import" (Clause.grouped clauses)
          (importEnd specifiers source) (d.emit.run p).1 ∧
        ((Clause.grouped clauses).Perm clauses ↔ hasRoom) ∧
        ((Clause.grouped clauses).length = specifiers.length ↔ hasRoom)) ∧
    ∀ (span : Span) (specifiers : List ExportSpecifier) (source : Option StringLit),
      let d := ModuleDecl.exportNamed span specifiers source
      let clauses := specifiers.map ExportSpecifier.clause
      let hasRoom := clauses.countP Clause.isDefault ≤ 1 ∧ clauses.countP Clause.isStar ≤ 1
      (d.emit.run p).2 = none →
        WritesClauses (p.step (.mark span)) "export" (Clause.grouped clauses) (exportEnd source)
          (d.emit.run p).1 ∧
        ((Clause.grouped clauses).Perm clauses ↔ hasRoom) ∧
        ((Clause.grouped clauses).length = specifiers.length ↔ hasRoom) := by
  constructor
  · intro span specifiers source d clauses hasRoom h
    have hdone : d.emit.failure? = none := (run_failure _ p).symm.trans h
    obtain ⟨hwrites, hdefault⟩ := importDecl_writesClauses span specifiers source
      (Option.or_eq_none_iff.mp hdone).2 (p.step (.mark span))
    have hperm := Clause.grouped_perm_iff clauses
    have hlength := Clause.grouped_length_eq_iff clauses
    rw [and_iff_right hdefault] at hperm hlength
    rw [List.length_map] at hlength
    rw [run_steps_done hdone]
    exact ⟨hwrites, hperm, hlength⟩
  · intro span specifiers source d clauses hasRoom h
    have hdone : d.emit.failure? = none := (run_failure _ p).symm.trans h
    have hwrites := exportNamed_writesClauses span specifiers source (p.step (.mark span))
    have hlength := Clause.grouped_length_eq_iff clauses
    rw [List.length_map] at hlength
    rw [run_steps_done hdone]
    exact ⟨hwrites, Clause.grouped_perm_iff clauses, hlength⟩

/-- `a, {b as c, d}` -/
def mixedImports : List ImportSpecifier :=
  [.default .dummy (.ofName "a"), .named .dummy (.ofName "c") (some (.ofName "b")),
    .named .dummy (.ofName "d") none]

/-- `{a as b}, * as c, d`, of which the braces are written last. -/
def mixedExports : List ExportSpecifier :=
  [.named .dummy (.ofName "a") (some (.ofName "b")), .star .dummy (.ofName "c"),
    .default .dummy (.ofName "d")]

theorem mixedSpecifiers_read_back :
    let imports :=
      (ModuleDecl.importDecl .dummy mixedImports (.ofValue "m")).emit.run (.new .compact)
    let exports :=
      (ModuleDecl.exportNamed .dummy mixedExports (some (.ofValue "m"))).emit.run (.new {})
    (imports.1.output = "import a,\x7bb as c,d\x7dfrom'm';" ∧
      WritesClauses ((Printer.new .compact).step (.mark .dummy)) "import"
        (Clause.grouped (mixedImports.map ImportSpecifier.clause))
        ["from", Text.quoted "m", ";"] imports.1 ∧
      (Clause.grouped (mixedImports.map ImportSpecifier.clause)).Perm
        (mixedImports.map ImportSpecifier.clause)) ∧
    exports.1.output = "export d, * as c, \x7b a as b \x7d from 'm';" ∧
      WritesClauses ((Printer.new {}).step (.mark .dummy)) "export"
        (Clause.grouped (mixedExports.map ExportSpecifier.clause))
        ["from", Text.quoted "m", ";"] exports.1 ∧
      (Clause.grouped (mixedExports.map ExportSpecifier.clause)).Perm
        (mixedExports.map ExportSpecifier.clause) := by
  have himports := (specifiers_read_back (.new .compact)).1 .dummy mixedImports (.ofValue "m") rfl
  have hexports := (specifiers_read_back (.new {})).2 .dummy mixedExports (some (.ofValue "m")) rfl
  exact ⟨⟨rfl, himports.1, himports.2.1.mpr (by decide)⟩,
    rfl, hexports.1, hexports.2.1.mpr (by decide)⟩

/-- `import * as y, * as z from 'm'` is printed without its first namespace, and
`export y, z from 'm'` without its first default. -/
theorem second_namespace_is_lost :
    let imports := (ModuleDecl.importDecl .dummy
      [.star .dummy (.ofName "y"), .star .dummy (.ofName "z")]
      (.ofValue "m")).emit.run (.new .compact)
    let exports := (ModuleDecl.exportNamed .dummy
      [.default .dummy (.ofName "y"), .default .dummy (.ofName "z")]
      (some (.ofValue "m"))).emit.run (.new .compact)
    (imports.2 = none ∧ imports.1.output = "import*as z from'm';"
        ∧ 'y' ∉ imports.1.output.toList) ∧
      exports.2 = none ∧ exports.1.output = "export z from'm';"
        ∧ 'y' ∉ exports.1.output.toList :=
  ⟨⟨rfl, rfl, by decide⟩, rfl, rfl, by decide⟩

end EcmaPrinter
