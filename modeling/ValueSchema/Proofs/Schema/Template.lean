/-
# Templates

A template is put together from literals and from parts that are not known yet.  Literals next to each
other are joined into one text and empty texts go, so that of the parts only the `texts` are left.
Nothing is lost by this: whatever a template is read for, a run of literals counts as the text that it
makes up.  `foldr_texts` says so once for all readings, and each of the four that `templateOf` makes is
an instance: the texts themselves, whether everything is known, the number of combinations, and the
texts of these combinations.

So it does not matter whether the parts are joined before or after values are filled in.  A template of
literals and inputs whose values come later is the template of the parts with their values, with the
same alternatives in the same order, and it stays symbolic in the same cases:
`refold_substitute_templateOf`.
-/
import ValueSchema.Proofs.Schema.Choices
import ValueSchema.Proofs.Schema.LateFolding

namespace ValueSchema.Schema

variable {s t : Schema} {items rest : List Schema} {cap : Nat}

/-! ## Joined texts -/

/-- The parts of a template after literals have been joined and empty texts left out. -/
def texts (items : List Schema) : List Schema := (joinTexts items).filter fun s => !s.isEmptyText

/-- Puts a text in front of joined parts. -/
def addText (text : String) (rest : List Schema) : List Schema :=
  if text = "" then rest
  else
    match rest with
    | literal (.string other) :: more => string (text ++ other) :: more
    | more => string text :: more

/-- Puts a part in front of joined parts. -/
def addPart (s : Schema) (rest : List Schema) : List Schema :=
  match s.literal? with
  | none => s :: rest
  | some value => addText value.toText rest

/-- No literal comes first. -/
def StartsUnknown (items : List Schema) : Prop := ∀ s ∈ items.head?, s.literal? = none

lemma startsUnknown_cons (h : s.literal? = none) : StartsUnknown (s :: rest) := by
  intro t ht
  obtain rfl := Option.some.inj ht
  exact h

lemma isEmptyText_of_literal?_eq_none (h : s.literal? = none) : s.isEmptyText = false := by
  cases s with
  | literal => cases h
  | _ => rfl

lemma StartsUnknown.filter (h : StartsUnknown items) :
    StartsUnknown (items.filter fun s => !s.isEmptyText) := by
  cases items with
  | nil => exact h
  | cons s rest =>
    have hs : s.literal? = none := h s rfl
    rw [List.filter_cons, isEmptyText_of_literal?_eq_none hs]
    exact startsUnknown_cons hs

@[simp] lemma addText_empty (rest : List Schema) : addText "" rest = rest := if_pos rfl

lemma addText_string {text : String} (htext : text ≠ "") (other : String) :
    addText text (string other :: rest) = string (text ++ other) :: rest := if_neg htext

lemma addText_of_startsUnknown {text : String} (htext : text ≠ "") (h : StartsUnknown rest) :
    addText text rest = string text :: rest := by
  rw [addText.eq_def, if_neg htext]
  split
  · cases h _ rfl
  · rfl

lemma joinTexts_cons_of_startsUnknown {value : Literal} (h : StartsUnknown (joinTexts rest)) :
    joinTexts (literal value :: rest) = string value.toText :: joinTexts rest := by
  simp only [joinTexts, literal?]
  split
  · rename_i heq
    rw [heq] at h
    cases h _ rfl
  · rfl

/-- Joined literals are apart from each other. -/
lemma joinTexts_cases (items : List Schema) : StartsUnknown (joinTexts items) ∨
    ∃ text more, joinTexts items = string text :: more ∧ StartsUnknown more := by
  induction items with
  | nil => exact Or.inl fun _ hs => by cases hs
  | cons s rest ih =>
    rcases hs : s.literal? with _ | value
    · rw [joinTexts, hs]
      exact Or.inl (startsUnknown_cons hs)
    · obtain rfl : s = literal value := by
        cases s with
        | literal => rw [Option.some.inj hs]
        | _ => cases hs
      rcases ih with hopen | ⟨text, more, heq, hopen⟩
      · exact Or.inr ⟨_, _, joinTexts_cons_of_startsUnknown hopen, hopen⟩
      · refine Or.inr ⟨value.toText ++ text, more, ?_, hopen⟩
        simp only [joinTexts, literal?, heq, string]

lemma filter_string_cons (text : String) (more : List Schema) :
    ((string text :: more).filter fun s => !s.isEmptyText) =
      if text = "" then more.filter fun s => !s.isEmptyText
      else string text :: more.filter fun s => !s.isEmptyText := by
  rw [List.filter_cons]
  by_cases htext : text = "" <;> simp [string, isEmptyText, htext]

/-- The parts are joined one after the other. -/
lemma texts_cons (s : Schema) (rest : List Schema) : texts (s :: rest) = addPart s (texts rest) := by
  rcases hs : s.literal? with _ | value
  · rw [texts, joinTexts, addPart, hs]
    exact List.filter_cons_of_pos (by rw [isEmptyText_of_literal?_eq_none hs]; rfl)
  · obtain rfl : s = literal value := by
      cases s with
      | literal => rw [Option.some.inj hs]
      | _ => cases hs
    change texts (literal value :: rest) = addText value.toText (texts rest)
    rcases joinTexts_cases rest with hopen | ⟨text, more, heq, hopen⟩
    · rw [texts, joinTexts_cons_of_startsUnknown hopen, filter_string_cons, texts]
      by_cases htext : value.toText = ""
      · rw [if_pos htext, htext, addText_empty]
      · rw [if_neg htext, addText_of_startsUnknown htext hopen.filter]
    · have hjoin : joinTexts (literal value :: rest) = string (value.toText ++ text) :: more := by
        simp only [joinTexts, literal?, heq, string]
      rw [texts, hjoin, texts, heq, filter_string_cons, filter_string_cons]
      by_cases htext : value.toText = ""
      · rw [htext, String.empty_append, addText_empty]
      · have happend : value.toText ++ text ≠ "" := fun h =>
          htext (String.append_eq_empty_iff.1 h).1
        rw [if_neg happend]
        by_cases hempty : text = ""
        · rw [if_pos hempty, hempty, String.append_empty,
            addText_of_startsUnknown htext hopen.filter]
        · rw [if_neg hempty, addText_string htext]

lemma texts_eq_foldr (items : List Schema) : texts items = items.foldr addPart [] := by
  induction items with
  | nil => rfl
  | cons s rest ih => rw [texts_cons, ih, List.foldr_cons]

/-- Texts that are joined are put in front one after the other. -/
lemma addText_append (x y : String) (rest : List Schema) :
    addText (x ++ y) rest = addText x (addText y rest) := by
  by_cases hx : x = ""
  · rw [hx, String.empty_append, addText_empty]
  by_cases hy : y = ""
  · rw [hy, String.append_empty, addText_empty]
  have hxy : x ++ y ≠ "" := fun h => hx (String.append_eq_empty_iff.1 h).1
  rw [addText.eq_def, if_neg hxy, addText.eq_def y, if_neg hy]
  split
  · rw [addText_string hx, String.append_assoc]
  · rw [addText_string hx]

/-! ## Readings of a template -/

section

variable {β : Type} {act : Schema → β → β} (actText : String → β → β)
  (hliteral : ∀ value b, act (literal value) b = actText value.toText b)
  (hempty : ∀ b, actText "" b = b)
  (happend : ∀ x y b, actText (x ++ y) b = actText x (actText y b))

include hliteral hempty happend

lemma foldr_addText (text : String) (rest : List Schema) (b : β) :
    (addText text rest).foldr act b = actText text (rest.foldr act b) := by
  rw [addText.eq_def]
  split
  · rename_i htext
    rw [htext, hempty]
  · split
    · simp only [List.foldr_cons, string, hliteral, Literal.toText, happend]
    · simp only [List.foldr_cons, string, hliteral, Literal.toText]

/-- A reading of the parts of a template in which a literal counts by its text, and texts that are
joined count as one after the other, is a reading of the joined texts. -/
theorem foldr_texts (items : List Schema) (b : β) :
    (texts items).foldr act b = items.foldr act b := by
  induction items with
  | nil => rfl
  | cons s rest ih =>
    rw [texts_cons, addPart, List.foldr_cons, ← ih]
    cases s with
    | literal value =>
      rw [hliteral]
      exact foldr_addText actText hliteral hempty happend _ _ _
    | _ => rfl

end

/-- All alternatives of all parts are literals. -/
def areLiterals (items : List Schema) : Bool := items.all fun s => s.alternatives.all isLiteral

/-- The number of choices of one alternative of each part. -/
def combinations (items : List Schema) : Nat := (items.map fun s => s.alternatives.length).prod

/-- The texts of all choices of one alternative of each part. -/
def expansions (items : List Schema) : List String :=
  (choices (items.map alternatives)).map concatenation

lemma expansions_cons (s : Schema) (rest : List Schema) :
    expansions (s :: rest) = s.alternatives.flatMap fun a =>
      (expansions rest).map (concatenation [a] ++ ·) := by
  have happend : ∀ a (c : List Schema), concatenation (a :: c) =
      concatenation [a] ++ concatenation c := by
    intro a c
    cases a <;> simp [concatenation, literal?]
  simp [expansions, choices, List.map_flatMap, Function.comp_def, ← happend]

section

variable {f : Schema → Schema} (hf : ∀ value, f (literal value) = literal value)

include hf

/-- Parts may be joined before they are changed, if literals stay as they are. -/
lemma texts_map_texts (items : List Schema) : texts ((texts items).map f) = texts (items.map f) := by
  rw [texts_eq_foldr, texts_eq_foldr (items.map f), List.foldr_map, List.foldr_map]
  refine foldr_texts addText (fun value b => ?_) addText_empty addText_append items []
  rw [hf, addPart, literal?]

lemma areLiterals_map_texts (items : List Schema) :
    areLiterals ((texts items).map f) = areLiterals (items.map f) := by
  have hfold : ∀ items : List Schema, areLiterals (items.map f) =
      items.foldr (fun s b => (f s).alternatives.all isLiteral && b) true := by
    intro items
    induction items with
    | nil => rfl
    | cons s rest ih => rw [List.foldr_cons, ← ih]; rfl
  rw [hfold, hfold]
  exact foldr_texts (fun _ b => b) (fun value b => by rw [hf]; rfl) (fun _ => rfl)
    (fun _ _ _ => rfl) items true

lemma combinations_map_texts (items : List Schema) :
    combinations ((texts items).map f) = combinations (items.map f) := by
  have hfold : ∀ items : List Schema, combinations (items.map f) =
      items.foldr (fun s n => (f s).alternatives.length * n) 1 := by
    intro items
    induction items with
    | nil => rfl
    | cons s rest ih =>
      rw [List.foldr_cons, ← ih]
      simp [combinations]
  rw [hfold, hfold]
  exact foldr_texts (fun _ n => n)
    (fun value n => by rw [hf]; exact Nat.one_mul n) (fun _ => rfl) (fun _ _ _ => rfl) items 1

lemma expansions_map_texts (items : List Schema) :
    expansions ((texts items).map f) = expansions (items.map f) := by
  have hfold : ∀ items : List Schema, expansions (items.map f) = items.foldr (fun s xs =>
      (f s).alternatives.flatMap fun a => xs.map (concatenation [a] ++ ·)) [""] := by
    intro items
    induction items with
    | nil => rfl
    | cons s rest ih => rw [List.foldr_cons, ← ih, List.map_cons, expansions_cons]
  rw [hfold, hfold]
  refine foldr_texts (fun text xs => xs.map (text ++ ·)) (fun value xs => ?_)
    (fun xs => ?_) (fun x y xs => ?_) items [""]
  · rw [hf]
    simp [alternatives, concatenation, literal?]
  · simp
  · simp [String.append_assoc, Function.comp_def]

end

/-! ## Combinations within the cap -/

lemma withinCap_alternatives_iff (hne : items ≠ []) (h : ∀ s ∈ items, s.alternatives ≠ []) :
    withinCap cap 1 (items.map alternatives) = true ↔ combinations items ≤ cap := by
  rw [withinCap_iff (List.forall_mem_map.2 h), List.map_eq_nil_iff, or_iff_right hne, Nat.one_mul,
    List.map_map]
  rfl

/-! ## What a template is -/

/-- A template of joined texts. -/
def ofTexts : List Schema → Schema
  | [] => string ""
  | items => template items

/-- A template is the union of the texts of its combinations, if these are known and not too many, and
else symbolic. -/
lemma templateOf_eq (items : List Schema) (cap : Nat) : templateOf items cap =
    if areLiterals (items.flatMap parts) = true ∧
        withinCap cap 1 ((items.flatMap parts).map alternatives) = true then
      unionOf ((expansions (items.flatMap parts)).map string)
    else ofTexts (texts (items.flatMap parts)) := by
  have hliterals : (((items.flatMap parts).map alternatives).all fun l => l.all isLiteral) =
      areLiterals (items.flatMap parts) := List.all_map
  rw [templateOf, hliterals, cartesian?]
  by_cases hcondition : areLiterals (items.flatMap parts) = true ∧
      withinCap cap 1 ((items.flatMap parts).map alternatives) = true
  · rw [if_pos hcondition, if_pos hcondition.1, if_pos hcondition.2]
    simp only [expansions, List.map_map]
    rfl
  · rw [if_neg hcondition]
    split
    · rename_i hall
      rw [if_neg fun hcap => hcondition ⟨hall, hcap⟩]
      rfl
    · rfl

lemma mem_texts (h : s ∈ texts items) : s ∈ items ∨ s.isLiteral = true :=
  mem_joinTexts (List.mem_of_mem_filter h)

lemma parts_of_isLiteral (h : s.isLiteral = true) : s.parts = [s] := by
  cases s with
  | literal value => rfl
  | _ => cases h

lemma map_of_isLiteral {f : Schema → Schema} (hf : ∀ value, f (literal value) = literal value)
    (h : s.isLiteral = true) : f s = s := by
  cases s with
  | literal value => exact hf value
  | _ => cases h

/-- A template of the parts is a template of the joined texts, also if the parts are changed in
between. -/
theorem templateOf_map_texts {f : Schema → Schema} (hf : ∀ value, f (literal value) = literal value)
    (hparts : ∀ s ∈ items, (f s).parts = [f s]) (hinhabited : ∀ s ∈ items, (f s).alternatives ≠ [])
    (hne : texts items ≠ []) (cap : Nat) :
    templateOf ((texts items).map f) cap = templateOf (items.map f) cap := by
  have hitems : items ≠ [] := by
    rintro rfl
    exact hne rfl
  -- what holds of the changed parts holds of the changed texts: these are parts or literals
  have htexts : ∀ P : Schema → Prop, (∀ s ∈ items, P (f s)) → (∀ value, P (literal value)) →
      ∀ s ∈ (texts items).map f, P s := by
    intro P hitem hliteral s hs
    obtain ⟨t, ht, rfl⟩ := List.mem_map.1 hs
    rcases mem_texts ht with hin | hliteral'
    · exact hitem t hin
    · rw [map_of_isLiteral hf hliteral']
      cases t with
      | literal value => exact hliteral value
      | _ => cases hliteral'
  have hflat : ((texts items).map f).flatMap parts = (texts items).map f :=
    flatMap_eq_self (htexts (fun s => s.parts = [s]) hparts fun _ => rfl)
  have hflat' : (items.map f).flatMap parts = items.map f :=
    flatMap_eq_self (List.forall_mem_map.2 hparts)
  have hwithin : withinCap cap 1 (((texts items).map f).map alternatives) =
      withinCap cap 1 ((items.map f).map alternatives) := by
    rw [Bool.eq_iff_iff, withinCap_alternatives_iff (by simpa using hne) (htexts _ hinhabited
        fun _ => List.cons_ne_nil _ _),
      withinCap_alternatives_iff (by simpa using hitems) (List.forall_mem_map.2 hinhabited),
      combinations_map_texts hf]
  rw [templateOf_eq, templateOf_eq, hflat, hflat', areLiterals_map_texts hf, hwithin,
    expansions_map_texts hf, texts_map_texts hf]

/-! ## Values that come later -/

/-- A piece of a text: a literal or an input. -/
def IsPiece (s : Schema) : Prop := s.isLiteral = true ∨ s.IsInput

/-- A part of a text: a piece, or a template of pieces. -/
def IsTextPart (s : Schema) : Prop :=
  s.IsPiece ∨ ∃ items, s = template items ∧ ∀ t ∈ items, t.IsPiece

/-- A literal, or a union of literals in normal form. -/
def IsKnown (s : Schema) : Prop :=
  s.isLiteral = true ∨
    ∃ items, s = union items ∧ (∀ t ∈ items, t.isLiteral = true) ∧ unionOf items = union items

/-- Every input of a schema has a known value. -/
def Fills (value? : NodeId → Option Schema) (s : Schema) : Prop :=
  ∀ n ∈ s.placeholders, ∃ v, value? n = some v ∧ v.IsKnown

variable {value? : NodeId → Option Schema}

namespace IsKnown

lemma parts_eq (h : s.IsKnown) : s.parts = [s] := by
  rcases h with hliteral | ⟨items, rfl, -⟩
  · exact parts_of_isLiteral hliteral
  · rfl

lemma alternatives_ne_nil (h : s.IsKnown) : s.alternatives ≠ [] := by
  rcases h with hliteral | ⟨items, rfl, -, hnormal⟩
  · exact alternatives_ne_nil_of_isLiteral hliteral
  · rintro (rfl : items = [])
    cases hnormal

lemma refold_eq (h : s.IsKnown) (cap : Nat) : s.refold cap = s := by
  have hliterals : ∀ t : Schema, t.isLiteral = true → t.refold cap = t := fun t =>
    map_of_isLiteral fun _ => rfl
  rcases h with hliteral | ⟨items, rfl, hitems, hnormal⟩
  · exact hliterals s hliteral
  · have hself : items.map (refold cap) = items :=
      (List.map_congr_left fun t ht => hliterals t (hitems t ht)).trans (List.map_id items)
    rw [Schema.refold_eq, mapChildren, hself]
    exact hnormal

end IsKnown

lemma substitute_literal (value? : NodeId → Option Schema) (value : Literal) :
    (literal value).substitute value? = literal value := rfl

lemma substitute_template (value? : NodeId → Option Schema) (items : List Schema) :
    (template items).substitute value? = template (items.map (substitute value?)) :=
  transform_eq _ _ _

lemma IsPiece.parts_eq (h : s.IsPiece) : s.parts = [s] := by
  rcases h with hliteral | ⟨kind, n, rfl⟩
  · exact parts_of_isLiteral hliteral
  · rfl

lemma IsPiece.isKnown_substitute (h : s.IsPiece) (hfills : Fills value? s) :
    (s.substitute value?).IsKnown := by
  rcases h with hliteral | ⟨kind, n, rfl⟩
  · rw [map_of_isLiteral (substitute_literal value?) hliteral]
    exact Or.inl hliteral
  · obtain ⟨v, hv, hknown⟩ := hfills n (List.mem_singleton_self n)
    have hfilled : (primitive kind (some n)).substitute value? = v := by
      rw [substitute, transform_eq]
      exact congrArg (Option.getD · _) hv
    rwa [hfilled]

lemma Fills.of_mem_parts (h : Fills value? s) (ht : t ∈ s.parts) : Fills value? t := by
  cases s with
  | template items =>
    intro n hn
    obtain ⟨u, hu, hplaceholder⟩ := List.mem_filterMap.1 hn
    exact h n (List.mem_filterMap.2 ⟨u, mem_subterms_of_mem_children ht hu, hplaceholder⟩)
  | _ =>
    obtain rfl := List.mem_singleton.1 ht
    exact h

section

variable (hparts : ∀ s ∈ items, s.IsTextPart)

include hparts

/-- The parts of a text are pieces, those of its templates included. -/
lemma isPiece_of_mem_flatMap (hs : s ∈ items.flatMap parts) : s.IsPiece := by
  obtain ⟨t, ht, hst⟩ := List.mem_flatMap.1 hs
  rcases hparts t ht with hpiece | ⟨inner, rfl, hinner⟩
  · rw [hpiece.parts_eq] at hst
    obtain rfl := List.mem_singleton.1 hst
    exact hpiece
  · exact hinner s hst

/-- Values are filled into the pieces, whether these are inside templates or not. -/
lemma flatMap_parts_substitute (hfills : ∀ s ∈ items, Fills value? s) :
    (items.map (substitute value?)).flatMap parts =
      (items.flatMap parts).map (substitute value?) := by
  rw [List.flatMap_map, List.map_flatMap]
  refine List.flatMap_congr fun s hs => ?_
  rcases hparts s hs with hpiece | ⟨inner, rfl, -⟩
  · rw [(hpiece.isKnown_substitute (hfills s hs)).parts_eq, hpiece.parts_eq]
    rfl
  · rw [substitute_template]
    rfl

/-- Without inputs nothing is filled in. -/
lemma templateOf_substitute_of_literals (hfills : ∀ s ∈ items, Fills value? s)
    (hliterals : ∀ s ∈ items.flatMap parts, s.isLiteral = true) :
    templateOf (items.map (substitute value?)) cap = templateOf items cap := by
  have hself : (items.flatMap parts).map (substitute value?) = items.flatMap parts :=
    (List.map_congr_left fun s hs => map_of_isLiteral (substitute_literal value?)
      (hliterals s hs)).trans (List.map_id _)
  rw [templateOf_eq, templateOf_eq items, flatMap_parts_substitute hparts hfills, hself]

end

lemma expansions_of_literals (h : ∀ s ∈ items, s.isLiteral = true) :
    ∃ text, expansions items = [text] := by
  induction items with
  | nil => exact ⟨"", rfl⟩
  | cons s rest ih =>
    obtain ⟨text, htext⟩ := ih fun t ht => h t (List.mem_cons_of_mem _ ht)
    have hs := h s (List.mem_cons_self ..)
    cases s with
    | literal value => exact ⟨_, by rw [expansions_cons, htext]; rfl⟩
    | _ => cases hs

/-- What is not a literal stays among the texts. -/
lemma mem_texts_of_not_isLiteral (hs : s ∈ items) (h : s.isLiteral = false) : s ∈ texts items := by
  induction items with
  | nil => cases hs
  | cons t rest ih =>
    rw [texts_cons]
    rcases List.mem_cons.1 hs with rfl | hs
    · cases s with
      | literal => cases h
      | _ => exact List.mem_cons_self ..
    · have hmem := ih hs
      rw [addPart]
      split
      · exact List.mem_cons_of_mem _ hmem
      · rw [addText.eq_def]
        split
        · exact hmem
        · split
          · rename_i heq
            rw [heq] at hmem
            rcases List.mem_cons.1 hmem with rfl | hmore
            · cases h
            · exact List.mem_cons_of_mem _ hmore
          · exact List.mem_cons_of_mem _ hmem

/-- A template of pieces is a text, and then all of them are literals, or it is symbolic. -/
lemma templateOf_of_isPiece (h : ∀ s ∈ items.flatMap parts, s.IsPiece) (cap : Nat) :
    ((∃ text, templateOf items cap = string text) ∧
        ∀ s ∈ items.flatMap parts, s.isLiteral = true) ∨
      (texts (items.flatMap parts) ≠ [] ∧
        templateOf items cap = template (texts (items.flatMap parts))) := by
  have hcases := templateOf_eq items cap
  split at hcases
  · rename_i hcondition
    have hliterals : ∀ s ∈ items.flatMap parts, s.isLiteral = true := by
      intro s hs
      have hall := List.all_eq_true.1 (List.all_eq_true.1 hcondition.1 s hs)
      rcases h s hs with hliteral | ⟨kind, n, rfl⟩
      · exact hliteral
      · exact hall _ (List.mem_singleton_self _)
    obtain ⟨text, htext⟩ := expansions_of_literals hliterals
    rw [htext] at hcases
    exact Or.inl ⟨⟨text, hcases⟩, hliterals⟩
  · rcases htexts : texts (items.flatMap parts) with _ | ⟨first, more⟩
    · refine Or.inl ⟨⟨"", by rw [hcases, htexts]; rfl⟩, fun s hs => ?_⟩
      by_contra hliteral
      have hmem := mem_texts_of_not_isLiteral hs (by simpa using hliteral)
      rw [htexts] at hmem
      cases hmem
    · exact Or.inr ⟨List.cons_ne_nil _ _, by rw [hcases, htexts]; rfl⟩

/-- Values are filled into the joined texts as into the parts. -/
lemma refold_substitute_texts (hknown : ∀ s ∈ items, (s.substitute value?).IsKnown)
    (hne : texts items ≠ []) (cap : Nat) :
    ((template (texts items)).substitute value?).refold cap =
      templateOf (items.map (substitute value?)) cap := by
  -- the texts are parts or literals, and the values of both are in normal form already
  have hrefold : ((texts items).map (substitute value?)).map (refold cap) =
      (texts items).map (substitute value?) := by
    refine (List.map_congr_left fun s hs => ?_).trans (List.map_id _)
    obtain ⟨t, ht, rfl⟩ := List.mem_map.1 hs
    rcases mem_texts ht with hin | hliteral
    · exact (hknown t hin).refold_eq cap
    · rw [map_of_isLiteral (substitute_literal value?) hliteral]
      exact IsKnown.refold_eq (Or.inl hliteral) cap
  calc ((template (texts items)).substitute value?).refold cap
      = templateOf ((texts items).map (substitute value?)) cap := by
        rw [substitute_template, refold_eq, mapChildren, hrefold]
        rfl
    _ = templateOf (items.map (substitute value?)) cap :=
        templateOf_map_texts (substitute_literal value?) (fun s hs => (hknown s hs).parts_eq)
          (fun s hs => (hknown s hs).alternatives_ne_nil) hne cap

/-- Templates and substitution commute.  A template of literals and inputs, made before the values of
the inputs are known and folded again afterwards, is the template of the parts with their values, also
if there are more combinations of these than the cap admits. -/
theorem refold_substitute_templateOf (items : List Schema) (hparts : ∀ s ∈ items, s.IsTextPart)
    (value? : NodeId → Option Schema) (hfills : ∀ s ∈ items, Fills value? s) (cap : Nat) :
    ((templateOf items cap).substitute value?).refold cap =
      templateOf (items.map (substitute value?)) cap := by
  have hpieces : ∀ s ∈ items.flatMap parts, s.IsPiece := fun s hs => isPiece_of_mem_flatMap hparts hs
  have hknown : ∀ s ∈ items.flatMap parts, (s.substitute value?).IsKnown := by
    intro s hs
    obtain ⟨t, ht, hst⟩ := List.mem_flatMap.1 hs
    exact (hpieces s hs).isKnown_substitute ((hfills t ht).of_mem_parts hst)
  rcases templateOf_of_isPiece hpieces cap with ⟨⟨text, htext⟩, hliterals⟩ | ⟨hne, htemplate⟩
  · -- a text has no inputs
    rw [templateOf_substitute_of_literals hparts hfills hliterals, htext]
    rfl
  · have hflat : ((items.flatMap parts).map (substitute value?)).flatMap parts =
        (items.flatMap parts).map (substitute value?) :=
      flatMap_eq_self (List.forall_mem_map.2 fun s hs => (hknown s hs).parts_eq)
    rw [htemplate, refold_substitute_texts hknown hne, templateOf_eq, templateOf_eq (items.map _),
      hflat, flatMap_parts_substitute hparts hfills]

/-- A path of a folder and a file.  Both are inputs, and the file is in a template of its own, behind
two texts that are joined with those around it. -/
def pathParts : List Schema :=
  [string "", primitive .string (some ⟨1⟩), string "/",
    template [string "tmp-", primitive .any (some ⟨2⟩), string ""]]

/-- Both the folder and the file are one of two. -/
def pathValue? (n : NodeId) : Option Schema :=
  some (if n = ⟨1⟩ then union [string "a", string ""] else union [string "x", null])

example : templateOf pathParts 4 =
    template [primitive .string (some ⟨1⟩), string "/tmp-", primitive .any (some ⟨2⟩)] := by rfl

example : ((templateOf pathParts 4).substitute pathValue?).refold 4 =
    union [string "a/tmp-x", string "a/tmp-null", string "/tmp-x", string "/tmp-null"] := by rfl

example : ((templateOf pathParts 3).substitute pathValue?).refold 3 =
    template [union [string "a", string ""], string "/tmp-", union [string "x", null]] := by rfl

/-- All four paths come out if four are admitted, and the template stays if only three are. -/
theorem refold_substitute_templateOf_pathParts :
    (∀ s ∈ pathParts, s.IsTextPart) ∧ (∀ s ∈ pathParts, Fills pathValue? s) ∧
      ((templateOf pathParts 4).substitute pathValue?).refold 4 =
        templateOf (pathParts.map (substitute pathValue?)) 4 ∧
      ((templateOf pathParts 3).substitute pathValue?).refold 3 =
        templateOf (pathParts.map (substitute pathValue?)) 3 := by
  have hparts : ∀ s ∈ pathParts, s.IsTextPart := by
    simp only [pathParts, List.forall_mem_cons]
    refine ⟨Or.inl (Or.inl rfl), Or.inl (Or.inr ⟨_, _, rfl⟩), Or.inl (Or.inl rfl),
      Or.inr ⟨_, rfl, ?_⟩, List.forall_mem_nil _⟩
    simp only [List.forall_mem_cons]
    exact ⟨Or.inl rfl, Or.inr ⟨_, _, rfl⟩, Or.inl rfl, List.forall_mem_nil _⟩
  have hfills : ∀ s ∈ pathParts, Fills pathValue? s := by
    refine fun _ _ n _ => ⟨_, rfl, ?_⟩
    split
    · exact Or.inr ⟨_, rfl, by simp [string, isLiteral, literal?], rfl⟩
    · exact Or.inr ⟨_, rfl, by simp [string, null, isLiteral, literal?], rfl⟩
  exact ⟨hparts, hfills, refold_substitute_templateOf _ hparts _ hfills 4,
    refold_substitute_templateOf _ hparts _ hfills 3⟩

end ValueSchema.Schema
