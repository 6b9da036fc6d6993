/-
# Patterns as regular expressions

The text of a pattern is read as the terms that the pattern stands for, wherever it stands: special
characters of fixed texts are escaped, and alternatives stand in a group of their own.  So the
expression of an anchored pattern matches a text just if the terms of the pattern take the text as a
whole.
-/
import Mathlib.Data.String.Basic
import ValueSchema.Proofs.Pattern.Expression
import ValueSchema.Schema.Pattern

namespace ValueSchema

namespace Pattern

open Regex

/-- The terms of a fixed text. -/
def literalTerms (text : List Char) : List Regex := (Text.utf16 text).map .unit

/-- A decimal digit. -/
def digit : Regex := .oneOf [('0'.toNat, '9'.toNat)]

/-- A digit but zero. -/
def leadingDigit : Regex := .oneOf [('1'.toNat, '9'.toNat)]

/-- The digits before the point of a number. -/
def wholePart : Regex := .group [literalTerms ['0'], [leadingDigit, .star digit]]

/-- The fraction of a number. -/
def fraction : Regex := .optional (.group [literalTerms ['.'] ++ [.plus digit]])

/-- The exponent of a number. -/
def exponent : Regex :=
  .optional (.group [[.oneOf [('e'.toNat, 'e'.toNat), ('E'.toNat, 'E'.toNat)],
    .optional (.oneOf [('+'.toNat, '+'.toNat), ('-'.toNat, '-'.toNat)]), .plus digit]])

/-- A minus sign, or none. -/
def sign : Regex := .optional (.unit '-'.toNat)

/-- Alternatives, where none at all are written like one that is blank. -/
def orBlank : List (List Regex) → List (List Regex)
  | [] => [[]]
  | alternatives => alternatives

mutual

/-- The terms that a pattern stands for. -/
def terms (p : Pattern) : List Regex :=
  match p with
  | text value => literalTerms value.toList
  | number => [sign, wholePart, fraction, exponent]
  | integer => [sign, .plus digit]
  | truth => [.group [literalTerms "true".toList, literalTerms "false".toList]]
  | anything => [.star .any]
  | choice items => [.group (orBlank (termsAll items))]
  | sequence items => (termsAll items).flatten
  termination_by structural p

/-- The terms of several patterns. -/
def termsAll (items : List Pattern) : List (List Regex) :=
  match items with
  | [] => []
  | p :: rest => terms p :: termsAll rest
  termination_by structural items

end

lemma renderAll_eq_map (items : List Pattern) : renderAll items = items.map render := by
  induction items with
  | nil => rfl
  | cons p rest ih => rw [renderAll, ih, List.map_cons]

lemma termsAll_eq_map (items : List Pattern) : termsAll items = items.map terms := by
  induction items with
  | nil => rfl
  | cons p rest ih => rw [termsAll, ih, List.map_cons]

/-! ## Reading patterns -/

/-- A text is read as some terms. -/
def IsReadAs (text : List Char) (terms : List Regex) : Prop :=
  ∀ complete done outer, Reader.run ⟨.term, ⟨complete, done⟩, outer⟩ text =
    some ⟨.term, ⟨complete, terms.reverse ++ done⟩, outer⟩

lemma run_append (σ : Reader) (text text' : List Char) :
    σ.run (text ++ text') = (σ.run text).bind fun τ => τ.run text' := List.foldlM_append

lemma IsReadAs.append {text text' : List Char} {terms terms' : List Regex}
    (h : IsReadAs text terms) (h' : IsReadAs text' terms') :
    IsReadAs (text ++ text') (terms ++ terms') := by
  intro complete done outer
  rw [run_append, h, Option.bind_some, h', List.reverse_append, List.append_assoc]

lemma isReadAs_nil : IsReadAs [] [] := fun _ _ _ => rfl

lemma IsReadAs.flatten {items : List Pattern}
    (h : ∀ p ∈ items, IsReadAs p.render.toList p.terms) :
    IsReadAs ((items.map fun p => p.render.toList).flatten) ((items.map terms).flatten) := by
  induction items with
  | nil => exact isReadAs_nil
  | cons p rest ih =>
    obtain ⟨hp, hrest⟩ := List.forall_mem_cons.1 h
    exact hp.append (ih hrest)

/-! ### Fixed texts -/

lemma isSyntax_eq_isSpecial (c : Char) : isSyntax c = isSpecial c := by
  rw [Bool.eq_iff_iff, isSyntax, isSpecial, List.contains_iff_mem, decide_eq_true_eq]
  exact List.Perm.mem_iff (by decide)

lemma stepTerm_of_not_isSyntax (σ : Reader) {c : Char} (h : isSyntax c = false) :
    σ.stepTerm c = some (σ.push (literalTerms [c])) := by
  unfold Reader.stepTerm
  split
  case h_12 =>
    rw [h, literalTerms, Text.utf16, List.flatMap_singleton]
    rfl
  all_goals exact absurd h (by decide)

lemma literalTerms_of_isSyntax {c : Char} (h : isSyntax c = true) :
    literalTerms [c] = [.unit c.toNat] := by
  have hascii : ['^', '$', '\\', '.', '*', '+', '?', '(', ')', '[', ']', '\x7b', '\x7d', '|'].all
      fun c => c.toNat < 0x80 := rfl
  have hbasic : c.toNat < 0x10000 := by
    have hlt := List.all_eq_true.1 hascii c (of_decide_eq_true h)
    exact Nat.lt_trans (of_decide_eq_true hlt) (by omega)
  rw [literalTerms, Text.utf16, List.flatMap_singleton, Text.units, if_pos hbasic,
    List.map_singleton]

lemma isReadAs_escape (value : String) :
    IsReadAs (escape value).toList (literalTerms value.toList) := by
  rw [escape, String.toList_ofList]
  induction value.toList with
  | nil => exact isReadAs_nil
  | cons c rest ih =>
    have hc : IsReadAs (if isSpecial c then ['\\', c] else [c]) (literalTerms [c]) := by
      intro complete done outer
      rw [← isSyntax_eq_isSpecial]
      cases hspecial : isSyntax c with
      | true =>
        rw [literalTerms_of_isSyntax hspecial, if_pos rfl]
        change (if isSyntax c then some _ else none).bind some = _
        rw [hspecial]
        rfl
      | false =>
        rw [if_neg Bool.false_ne_true]
        change (Reader.stepTerm _ c).bind some = _
        rw [stepTerm_of_not_isSyntax _ hspecial]
        rfl
    have hterms : literalTerms (c :: rest) = literalTerms [c] ++ literalTerms rest := by
      simp [literalTerms, Text.utf16]
    rw [List.flatMap_cons, hterms]
    exact hc.append ih

/-! ### Alternatives -/

/-- Alternatives are read one after the other, with a bar between them. -/
lemma run_alternatives {items : List Pattern}
    (h : ∀ p ∈ items, IsReadAs p.render.toList p.terms) (complete : List (List Regex))
    (outer : List Level) :
    ∃ level, Reader.run ⟨.term, ⟨complete, []⟩, outer⟩
        (['|'].intercalate (items.map fun p => p.render.toList)) = some ⟨.term, level, outer⟩ ∧
      level.alternatives = complete.reverse ++ orBlank (items.map terms) := by
  induction items generalizing complete with
  | nil => exact ⟨_, rfl, List.reverse_cons⟩
  | cons p rest ih =>
    obtain ⟨hp, hrest⟩ := List.forall_mem_cons.1 h
    cases rest with
    | nil =>
      refine ⟨⟨complete, p.terms.reverse ++ []⟩, ?_, ?_⟩
      · rw [List.map_singleton, List.intercalate_singleton]
        exact hp complete [] outer
      · rw [Level.alternatives, List.append_nil, List.reverse_reverse, List.reverse_cons]
        rfl
    | cons q rest =>
      obtain ⟨level, hlevel, halternatives⟩ := ih hrest (p.terms :: complete)
      refine ⟨level, ?_, ?_⟩
      · rw [List.map_cons, List.map_cons, List.intercalate_cons_cons, run_append, run_append, hp]
        change Reader.run ⟨.term, ⟨(p.terms.reverse ++ []).reverse :: complete, []⟩, outer⟩ _ = _
        rw [List.append_nil, List.reverse_reverse]
        exact hlevel
      · rw [halternatives, List.reverse_cons, List.append_assoc]
        rfl

lemma isReadAs_choice {items : List Pattern}
    (h : ∀ p ∈ items, IsReadAs p.render.toList p.terms) :
    IsReadAs (choice items).render.toList (choice items).terms := by
  intro complete done outer
  obtain ⟨level, hlevel, halternatives⟩ := run_alternatives h [] (⟨complete, done⟩ :: outer)
  have hopen : ∀ text, Reader.run ⟨.term, ⟨complete, done⟩, outer⟩ (['(', '?', ':'] ++ text) =
      Reader.run ⟨.term, ⟨[], []⟩, ⟨complete, done⟩ :: outer⟩ text := fun _ => rfl
  have htext : (choice items).render.toList = ['(', '?', ':'] ++
      ((['|'].intercalate (items.map fun p => p.render.toList)) ++ [')']) := by
    rw [render, renderAll_eq_map, String.toList_append, String.toList_append,
      String.toList_intercalate, List.map_map, List.append_assoc]
    rfl
  rw [htext, hopen, run_append, hlevel, terms, termsAll_eq_map]
  change some (Reader.push ⟨.term, ⟨complete, done⟩, outer⟩ [.group level.alternatives]) = _
  rw [halternatives]
  rfl

mutual

/-- Every pattern is read as its terms. -/
theorem isReadAs_render : (p : Pattern) → IsReadAs p.render.toList p.terms
  | text value => isReadAs_escape value
  | number => fun _ _ _ => rfl
  | integer => fun _ _ _ => rfl
  | truth => fun _ _ _ => rfl
  | anything => fun _ _ _ => rfl
  | choice items => isReadAs_choice (isReadAs_renderAll items)
  | sequence items => by
    have hitems := IsReadAs.flatten (isReadAs_renderAll items)
    rw [render, terms, renderAll_eq_map, termsAll_eq_map, String.toList_join, List.flatMap_map]
    exact hitems
  termination_by structural p => p

theorem isReadAs_renderAll : (items : List Pattern) →
    ∀ p ∈ items, IsReadAs p.render.toList p.terms
  | [] => List.forall_mem_nil _
  | p :: rest => List.forall_mem_cons.2 ⟨isReadAs_render p, isReadAs_renderAll rest⟩
  termination_by structural items => items

end

lemma read?_anchored (p : Pattern) :
    read? p.anchored = some (.group [.start :: (p.terms ++ [.finish])]) := by
  have hstart : IsReadAs ['^'] [.start] := fun _ _ _ => rfl
  have hfinish : IsReadAs ['$'] [.finish] := fun _ _ _ => rfl
  have hall := (hstart.append (isReadAs_render p)).append hfinish
  rw [read?, anchored, String.toList_append, String.toList_append]
  change (Reader.run Reader.initial (['^'] ++ p.render.toList ++ ['$'])).bind _ = _
  rw [Reader.initial, hall, List.append_nil]
  change some (Regex.group [([Regex.start] ++ p.terms ++ [Regex.finish]).reverse.reverse]) = _
  rw [List.reverse_reverse, List.singleton_append, List.cons_append]

/-- The expression of a pattern matches a text if the terms of the pattern take the text as a whole. -/
lemma matches_anchored_iff {p : Pattern} {text : String} : Matches p.anchored text ↔
    TakesAll (Text.utf16 text.toList) p.terms (Text.utf16 text.toList) [] := by
  rw [← foundIn_anchored]
  constructor
  · rintro ⟨r, hread, hfound⟩
    obtain rfl := Option.some.inj ((read?_anchored p).symm.trans hread)
    exact hfound
  · exact fun hfound => ⟨_, read?_anchored p, hfound⟩

end Pattern

end ValueSchema
