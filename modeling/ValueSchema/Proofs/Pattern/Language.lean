/-
# The texts that the pattern of a template matches

A template of literals, texts, truth values and big integers is written by writing its items one after
the other.  Its pattern matches exactly what can be written in this way, except that a text among the
items has to be in one line: a dot does not match the end of a line.  Everything else may hold any
characters, as the special ones are escaped and the alternatives stand in groups of their own.

An expression reads the code units of a text, and the items of a template are written in characters.  A
dot may stop between the two halves of a character, with the second one left for the dot that follows.
So what is left of a text are some characters and perhaps half of another one (`Remains`), and the half
counts for the part that has been read: every part that is read ends at a character (`Reads`).
-/
import ValueSchema.Proofs.Pattern.Admission
import ValueSchema.Proofs.Schema.Throughout
import ValueSchema.Schema.Document

namespace ValueSchema

/-! ## Characters and their code units -/

namespace Text

/-- A character is one unit that is no surrogate, or a pair of surrogates that determine it. -/
lemma units_cases (c : Char) :
    (units c = [c.toNat] ∧ (c.toNat < 0xd800 ∨ 0xdfff < c.toNat)) ∨
      ∃ high low, units c = [high, low] ∧ (0xd800 ≤ high ∧ high < 0xdc00) ∧
        (0xdc00 ≤ low ∧ low < 0xe000) ∧
        c.toNat = 0x10000 + (high - 0xd800) * 0x400 + (low - 0xdc00) := by
  have hvalid : c.toNat < 0xd800 ∨ 0xdfff < c.toNat ∧ c.toNat < 0x110000 := c.valid
  rw [units]
  split
  · exact Or.inl ⟨rfl, by omega⟩
  · exact Or.inr ⟨_, _, rfl, by omega, by omega, by omega⟩

lemma units_ne_nil (c : Char) : units c ≠ [] := by
  rw [units]
  split <;> exact List.cons_ne_nil _ _

/-- The second half of a character is not the first unit of any character. -/
lemma not_second_half {c d : Char} {high low : Nat} {rest : List Nat} (hc : units c = [high, low]) :
    units d ≠ low :: rest := by
  intro hd
  rcases units_cases c with ⟨hone, -⟩ | ⟨_, _, htwo, -, hlow, -⟩
  · cases hc.symm.trans hone
  · cases hc.symm.trans htwo
    rcases units_cases d with ⟨hone, hbasic⟩ | ⟨_, _, htwo, hhigh, -⟩
    · cases hd.symm.trans hone
      omega
    · cases hd.symm.trans htwo
      omega

/-- No character begins another one. -/
lemma units_append_inj {c d : Char} {rest rest' : List Nat}
    (h : units c ++ rest = units d ++ rest') : c = d ∧ rest = rest' := by
  have hchar : c.toNat = d.toNat → c = d := Char.toNat_inj.1
  rcases units_cases c with ⟨hc, hbasic⟩ | ⟨_, _, hc, hhigh, hlow, hcode⟩ <;>
    rcases units_cases d with ⟨hd, hbasic'⟩ | ⟨_, _, hd, hhigh', hlow', hcode'⟩ <;>
    rw [hc, hd] at h <;>
    simp only [List.cons_append, List.nil_append, List.cons.injEq] at h
  · exact ⟨hchar h.1, h.2⟩
  · omega
  · omega
  · obtain ⟨rfl, rfl, hrest⟩ := h
    exact ⟨hchar (hcode.trans hcode'.symm), hrest⟩

lemma utf16_cons (c : Char) (cs : List Char) : utf16 (c :: cs) = units c ++ utf16 cs :=
  List.flatMap_cons

/-- What is left of a text: some characters, and perhaps the second half of the one before them. -/
def Remains (cs : List Char) (s : List Nat) : Prop :=
  s = utf16 cs ∨ ∃ c high low, units c = [high, low] ∧ s = low :: utf16 cs

namespace Remains

variable {cs : List Char} {u : Nat} {s t : List Nat}

lemma whole (cs : List Char) : Remains cs (utf16 cs) := Or.inl rfl

lemma eq_nil (h : Remains cs []) : cs = [] := by
  rcases h with hwhole | ⟨_, _, _, -, hhalf⟩
  · cases cs with
    | nil => rfl
    | cons c rest =>
      rw [utf16_cons] at hwhole
      exact absurd (List.append_eq_nil_iff.1 hwhole.symm).1 (units_ne_nil c)
  · cases hhalf

/-- A unit is the rest of a character that has been read already, or it begins the next one, and of
that one half may be left. -/
lemma of_cons (h : Remains cs (u :: t)) :
    (0xdc00 ≤ u ∧ Remains cs t) ∨
      ∃ c rest, cs = c :: rest ∧ Remains rest t ∧
        (units c = [u] ∨ ∃ low, units c = [u, low] ∧ 0xdc00 ≤ low) := by
  rcases h with hwhole | ⟨c, high, low, hc, hhalf⟩
  · cases cs with
    | nil => cases hwhole
    | cons c rest =>
      refine Or.inr ⟨c, rest, rfl, ?_⟩
      rw [utf16_cons] at hwhole
      rcases units_cases c with ⟨hc, -⟩ | ⟨high, low, hc, -, hlow, -⟩ <;>
        rw [hc] at hwhole <;>
        obtain ⟨rfl, rfl⟩ := List.cons.inj hwhole
      · exact ⟨whole rest, Or.inl hc⟩
      · exact ⟨Or.inr ⟨c, _, _, hc, rfl⟩, Or.inr ⟨low, hc, hlow.1⟩⟩
  · obtain ⟨rfl, rfl⟩ := List.cons.inj hhalf
    rcases units_cases c with ⟨hone, -⟩ | ⟨_, _, htwo, -, hlow, -⟩
    · cases hc.symm.trans hone
    · cases hc.symm.trans htwo
      exact Or.inl ⟨hlow.1, whole cs⟩

/-- A unit below the surrogates is a character. -/
lemma of_cons_lt (hu : u < 0xd800) (h : Remains cs (u :: t)) :
    ∃ c rest, cs = c :: rest ∧ c.toNat = u ∧ Remains rest t := by
  rcases h.of_cons with ⟨hhalf, -⟩ | ⟨c, rest, rfl, hrest, hc⟩
  · omega
  · refine ⟨c, rest, rfl, ?_, hrest⟩
    rcases units_cases c with ⟨hone, -⟩ | ⟨_, _, htwo, hhigh, -⟩ <;> rcases hc with hc | ⟨_, hc, -⟩
    · exact (List.cons.inj (hone.symm.trans hc)).1
    · cases hone.symm.trans hc
    · cases htwo.symm.trans hc
    · cases htwo.symm.trans hc
      omega

/-- The units of a text are its characters, wherever they are found. -/
lemma of_append {value : List Char} (h : Remains cs (utf16 value ++ t)) :
    ∃ rest, cs = value ++ rest ∧ Remains rest t := by
  induction value generalizing cs with
  | nil => exact ⟨cs, rfl, h⟩
  | cons c value ih =>
    rw [utf16_cons, List.append_assoc] at h
    rcases h with hwhole | ⟨d, high, low, hd, hhalf⟩
    · cases cs with
      | nil => exact absurd (List.append_eq_nil_iff.1 hwhole).1 (units_ne_nil c)
      | cons d cs =>
        rw [utf16_cons] at hwhole
        obtain ⟨rfl, hrest⟩ := units_append_inj hwhole
        obtain ⟨rest, rfl, ht⟩ := ih (Or.inl hrest)
        exact ⟨rest, rfl, ht⟩
    · -- the text does not begin in the middle of a character
      obtain ⟨v, others, hc⟩ := List.exists_cons_of_ne_nil (units_ne_nil c)
      rw [hc] at hhalf
      obtain ⟨rfl, -⟩ := List.cons.inj hhalf
      exact absurd hc (not_second_half hd)

end Remains

end Text

/-! ## Parts that end at a character -/

namespace Regex

open Text

/-- Whatever some terms read ends at a character, apart from the half of one, and is accepted. -/
def Reads (terms : List Regex) (accepts : List Char → Prop) : Prop :=
  ∀ ⦃text s t cs⦄, TakesAll text terms s t → Remains cs s →
    ∃ part rest, cs = part ++ rest ∧ accepts part ∧ Remains rest t

namespace Reads

variable {terms terms' : List Regex} {r : Regex} {accepts accepts' : List Char → Prop}

lemma mono (h : Reads terms accepts) (hle : ∀ part, accepts part → accepts' part) :
    Reads terms accepts' := by
  intro text s t cs htakes hs
  obtain ⟨part, rest, hcs, hpart, ht⟩ := h htakes hs
  exact ⟨part, rest, hcs, hle part hpart, ht⟩

lemma nil : Reads [] (· = []) := by
  rintro text s _ cs rfl hs
  exact ⟨[], cs, rfl, rfl, hs⟩

lemma append (h : Reads terms accepts) (h' : Reads terms' accepts') :
    Reads (terms ++ terms') fun part => ∃ a b, accepts a ∧ accepts' b ∧ part = a ++ b := by
  intro text s t cs htakes hs
  obtain ⟨m, hfirst, hsecond⟩ := takesAll_append.1 htakes
  obtain ⟨a, rest, rfl, ha, hm⟩ := h hfirst hs
  obtain ⟨b, rest, rfl, hb, ht⟩ := h' hsecond hm
  exact ⟨a ++ b, rest, (List.append_assoc ..).symm, ⟨a, b, ha, hb, rfl⟩, ht⟩

lemma group {alternatives : List (List Regex)} (h : ∀ terms ∈ alternatives, Reads terms accepts) :
    Reads [.group alternatives] accepts := by
  intro text s t cs htakes hs
  obtain ⟨terms, hterms, hall⟩ := takesSome_iff.1 (takesAll_singleton.1 htakes)
  exact h terms hterms hall hs

lemma optional (h : Reads [r] accepts) : Reads [.optional r] fun part => accepts part ∨ part = [] := by
  intro text s t cs htakes hs
  rcases takesAll_singleton.1 htakes with htakes | rfl
  · obtain ⟨part, rest, hcs, hpart, ht⟩ := h (takesAll_singleton.2 htakes) hs
    exact ⟨part, rest, hcs, Or.inl hpart, ht⟩
  · exact ⟨[], cs, rfl, Or.inr rfl, hs⟩

/-- A part that is read in any number of steps is put together from the parts of the steps. -/
lemma star (h : Reads [r] accepts) : Reads [.star r] fun part =>
    ∃ parts : List (List Char), (∀ a ∈ parts, accepts a) ∧ part = parts.flatten := by
  intro text s t cs htakes hs
  have hsteps : Relation.ReflTransGen (r.Takes text) s t := takesAll_singleton.1 htakes
  induction hsteps using Relation.ReflTransGen.head_induction_on generalizing cs with
  | refl => exact ⟨[], cs, rfl, ⟨[], List.forall_mem_nil _, rfl⟩, hs⟩
  | head hstep hsteps ih =>
    obtain ⟨a, rest, rfl, ha, hm⟩ := h (takesAll_singleton.2 hstep) hs
    obtain ⟨_, rest, rfl, ⟨parts, hparts, rfl⟩, ht⟩ := ih (takesAll_singleton.2 hsteps) hm
    exact ⟨a ++ parts.flatten, rest, (List.append_assoc ..).symm,
      ⟨a :: parts, List.forall_mem_cons.2 ⟨ha, hparts⟩, rfl⟩, ht⟩

lemma plus (h : Reads [r] accepts) : Reads [.plus r] fun part => ∃ a,
    ∃ parts : List (List Char), accepts a ∧ (∀ b ∈ parts, accepts b) ∧ part = a ++ parts.flatten := by
  intro text s t cs htakes hs
  have hsteps : Relation.TransGen (r.Takes text) s t := takesAll_singleton.1 htakes
  obtain ⟨m, hstep, hrest⟩ := Relation.TransGen.head'_iff.1 hsteps
  -- the first step by itself, and all others as any number of steps
  have hall : TakesAll text ([r] ++ [.star r]) s t :=
    takesAll_append.2 ⟨m, takesAll_singleton.2 hstep, takesAll_singleton.2 hrest⟩
  refine (h.append h.star).mono ?_ hall hs
  rintro _ ⟨a, _, ha, ⟨parts, hparts, rfl⟩, rfl⟩
  exact ⟨a, parts, ha, hparts, rfl⟩

end Reads

end Regex

namespace Pattern

open Regex Text

lemma takesAll_units {text us s t : List Nat} (h : TakesAll text (us.map .unit) s t) :
    s = us ++ t := by
  induction us generalizing s with
  | nil => exact h
  | cons u us ih =>
    obtain ⟨m, rfl, hrest⟩ := h
    exact congrArg (u :: ·) (ih hrest)

lemma reads_literalTerms (value : List Char) : Reads (literalTerms value) (· = value) := by
  intro text s t cs htakes hs
  rw [literalTerms] at htakes
  rw [takesAll_units htakes] at hs
  obtain ⟨rest, rfl, ht⟩ := hs.of_append
  exact ⟨value, rest, rfl, rfl, ht⟩

/-- Whatever dots read is in one line. -/
lemma reads_anything : Reads anything.terms fun part => ∀ u ∈ utf16 part, endsLine u = false := by
  have hlarge : ∀ u, 0xdc00 ≤ u → endsLine u = false := by
    intro u hu
    simp only [endsLine, List.mem_cons, List.not_mem_nil, or_false, decide_eq_false_iff_not]
    omega
  -- a dot reads the rest of a character, or it begins one, and the second half ends no line either
  have hany : Reads [.any] fun part => ∀ u ∈ utf16 part, endsLine u = false := by
    intro text s t cs htakes hs
    obtain ⟨u, hu, rfl⟩ := takesAll_singleton.1 htakes
    rcases hs.of_cons with ⟨-, ht⟩ | ⟨c, rest, rfl, ht, hc⟩
    · exact ⟨[], cs, rfl, List.forall_mem_nil _, ht⟩
    · refine ⟨[c], rest, rfl, ?_, ht⟩
      have hunits : utf16 [c] = units c := List.flatMap_singleton ..
      simp only [hunits]
      rcases hc with hc | ⟨low, hc, hlow⟩ <;> rw [hc]
      · exact List.forall_mem_singleton.2 hu
      · exact List.forall_mem_cons.2 ⟨hu, List.forall_mem_singleton.2 (hlarge low hlow)⟩
  refine hany.star.mono ?_
  rintro _ ⟨parts, hparts, rfl⟩ u hu
  obtain ⟨c, hc, hu⟩ := List.mem_flatMap.1 hu
  obtain ⟨part, hpart, hc⟩ := List.mem_flatten.1 hc
  exact hparts part hpart u (List.mem_flatMap.2 ⟨c, hc, hu⟩)

lemma reads_truth : Reads truth.terms fun part =>
    ∃ b, String.ofList part = (Literal.boolean b).toText := by
  refine .group fun terms hterms => ?_
  rcases List.mem_pair.1 hterms with rfl | rfl
  · exact (reads_literalTerms _).mono fun part hpart => ⟨true, by rw [hpart]; rfl⟩
  · exact (reads_literalTerms _).mono fun part hpart => ⟨false, by rw [hpart]; rfl⟩

/-- An integer is read as digits, with a minus sign or without. -/
lemma reads_integer : Reads integer.terms fun part => ∃ negative digits, digits ≠ [] ∧
    (∀ c ∈ digits, c.isDigit = true) ∧ String.ofList part = Number.signed negative digits := by
  have hdigit : Reads [digit] fun part => ∃ c, part = [c] ∧ c.isDigit = true := by
    intro text s t cs htakes hs
    obtain ⟨u, ⟨range, hrange, hu⟩, rfl⟩ := takesAll_singleton.1 htakes
    obtain rfl := List.mem_singleton.1 hrange
    obtain ⟨c, rest, rfl, rfl, ht⟩ := hs.of_cons_lt (Nat.lt_of_le_of_lt hu.2 (by decide))
    exact ⟨[c], rest, rfl, ⟨c, rfl, Char.isDigit_iff_toNat.2 hu⟩, ht⟩
  have hsign : Reads [sign] fun part => part = ['-'] ∨ part = [] :=
    (reads_literalTerms ['-']).optional
  refine (hsign.append hdigit.plus).mono ?_
  rintro _ ⟨first, _, hfirst, ⟨_, parts, ⟨c, rfl, hc⟩, hparts, rfl⟩, rfl⟩
  have hdigits : ∀ d ∈ [c] ++ parts.flatten, d.isDigit = true := by
    refine List.forall_mem_append.2 ⟨List.forall_mem_singleton.2 hc, fun d hd => ?_⟩
    obtain ⟨part, hpart, hd⟩ := List.mem_flatten.1 hd
    obtain ⟨d', rfl, hd'⟩ := hparts part hpart
    rwa [List.mem_singleton.1 hd]
  rcases hfirst with rfl | rfl
  · exact ⟨true, _, List.cons_ne_nil c _, hdigits, rfl⟩
  · exact ⟨false, _, List.cons_ne_nil c _, hdigits, rfl⟩

end Pattern

/-! ## Templates -/

namespace Schema

open Regex Pattern

/-- How a part of a template is written: a literal as its text, a truth value and a big integer as
theirs, a union as one of its members, and a template by writing its items one after the other.  What
the type of texts is written as is left open. -/
inductive Writes (wild : String → Prop) : Schema → String → Prop
  | literal (value : Literal) : Writes wild (literal value) value.toText
  | wild {o : Option NodeId} {text : String} (h : wild text) :
      Writes wild (primitive .string o) text
  | boolean {o : Option NodeId} (b : Bool) :
      Writes wild (primitive .boolean o) (Literal.boolean b).toText
  | bigint {o : Option NodeId} (negative : Bool) {digits : List Char} (hne : digits ≠ [])
      (hdigits : ∀ c ∈ digits, c.isDigit = true) :
      Writes wild (primitive .bigint o) (Number.signed negative digits)
  | union {items : List Schema} {s : Schema} {text : String} (hs : s ∈ items)
      (h : Writes wild s text) : Writes wild (union items) text
  | blank : Writes wild (template []) ""
  | template {s : Schema} {items : List Schema} {text rest : String} (h : Writes wild s text)
      (hrest : Writes wild (template items) rest) : Writes wild (template (s :: items)) (text ++ rest)

/-- Whether a schema, apart from its children, is one of those that are put together to a template: a
literal, the type of texts, of truth values or of big integers, a union or a template. -/
def isTextual : Schema → Bool
  | literal _ | union _ | template _ => true
  | primitive .string _ | primitive .boolean _ | primitive .bigint _ => true
  | _ => false

/-- Whether a schema is a union without members. -/
def isEmptyUnion : Schema → Bool
  | union [] => true
  | _ => false

variable {s : Schema} {items : List Schema} {text : String} {wild : String → Prop}

lemma writes_string_iff {o : Option NodeId} : Writes wild (primitive .string o) text ↔ wild text := by
  constructor
  · rintro ⟨⟩
    assumption
  · exact .wild

lemma writes_template_singleton_iff : Writes wild (template [s]) text ↔ Writes wild s text := by
  constructor
  · intro h
    cases h with
    | template hpart hblank =>
      cases hblank
      rwa [String.append_empty]
  · intro h
    rw [← @String.append_empty text]
    exact .template h .blank

/-- The pattern of a schema matches what the schema is written as, if texts are in one line. -/
lemma Writes.spans (h : Writes Text.IsOneLine s text) :
    Spans s.pattern.terms (Text.utf16 text.toList) := by
  induction h with
  | literal value => exact spans_literalTerms _
  | wild hline => exact spans_anything hline
  | boolean b => exact spans_boolean b
  | bigint negative hne hdigits => exact spans_signed negative (spans_plus_digit hdigits hne)
  | union hs _ ih => exact spans_union hs ih
  | blank => exact .nil
  | template _ _ ih ihrest =>
    rw [String.toList_append, Text.utf16_append]
    exact ih.append ihrest

/-- The items of a template are read one after the other. -/
lemma reads_template (h : ∀ s ∈ items, Regex.Reads s.pattern.terms fun part =>
      Writes Text.IsOneLine s (String.ofList part)) :
    Regex.Reads (template items).pattern.terms fun part =>
      Writes Text.IsOneLine (template items) (String.ofList part) := by
  induction items with
  | nil => exact Regex.Reads.nil.mono fun part hpart => by rw [hpart]; exact .blank
  | cons s rest ih =>
    obtain ⟨hs, hrest⟩ := List.forall_mem_cons.1 h
    refine (hs.append (ih hrest)).mono ?_
    rintro _ ⟨a, b, ha, hb, rfl⟩
    rw [String.ofList_append]
    exact .template ha hb

/-- The pattern of a schema reads nothing but what the schema is written as, with texts in one line.
The pattern of a union without members would read the empty text. -/
lemma reads_pattern (h : s.Throughout fun t => t.isTextual = true)
    (hne : s.Throughout fun t => t.isEmptyUnion = false) :
    Regex.Reads s.pattern.terms fun part => Writes Text.IsOneLine s (String.ofList part) := by
  induction s using induction with
  | step s ih =>
    have hchild : ∀ t ∈ s.children, Regex.Reads t.pattern.terms fun part =>
        Writes Text.IsOneLine t (String.ofList part) := fun t ht =>
      ih t ht (h.of_mem_children ht) (hne.of_mem_children ht)
    have hself : s.isTextual = true := h.here
    cases s with
    | literal value =>
      refine (reads_literalTerms _).mono fun part hpart => ?_
      rw [hpart, String.ofList_toList]
      exact .literal value
    | primitive kind o =>
      cases kind with
      | string =>
        refine reads_anything.mono fun part hpart => .wild ?_
        rwa [Text.IsOneLine, String.toList_ofList]
      | boolean =>
        refine reads_truth.mono ?_
        rintro part ⟨b, hb⟩
        rw [hb]
        exact .boolean b
      | bigint =>
        refine reads_integer.mono ?_
        rintro part ⟨negative, digits, hnonempty, hdigits, hpart⟩
        rw [hpart]
        exact .bigint negative hnonempty hdigits
      | _ => cases hself
    | union items =>
      refine .group fun terms hterms => ?_
      -- with no members the only alternative would be blank
      have hmem : terms ∈ items.map (Pattern.terms ∘ pattern) := by
        rw [termsAll_eq_map, patterns_eq_map, List.map_map] at hterms
        cases items with
        | nil => cases (hne.here : isEmptyUnion (union []) = false)
        | cons => exact hterms
      obtain ⟨t, ht, rfl⟩ := List.mem_map.1 hmem
      exact (hchild t ht).mono fun part hpart => .union ht hpart
    | template items => exact reads_template hchild
    | _ => cases hself

/-- The document of a template asks for a text that its pattern matches, and the pattern matches what
the template is written as, as long as the texts in it are in one line.  Unless there is a union
without members, it matches nothing else. -/
theorem pattern_describes_template (h : (template items).Throughout fun t => t.isTextual = true)
    (defined : String → Bool) : ∃ expression, (template items).describe defined =
        .obj [("type", .str "string"), ("pattern", .str expression)] ∧
      (∀ text, Writes Text.IsOneLine (template items) text → Matches expression text) ∧
      (((template items).Throughout fun t => t.isEmptyUnion = false) →
        ∀ text, Matches expression text → Writes Text.IsOneLine (template items) text) := by
  refine ⟨(template items).pattern.anchored, rfl, fun text hw => matches_of_spans hw.spans, ?_⟩
  intro hne text hm
  obtain ⟨part, rest, htext, hpart, hrest⟩ :=
    reads_pattern h hne (matches_anchored_iff.1 hm) (Text.Remains.whole text.toList)
  rw [hrest.eq_nil, List.append_nil] at htext
  rwa [← htext, String.ofList_toList] at hpart

/-- The end of a line is a text, but the pattern of the template of one text does not match it. -/
theorem pattern_describes_template_text : ∃ expression,
    (template [plain .string]).describe (fun _ => false) =
        .obj [("type", .str "string"), ("pattern", .str expression)] ∧
      Writes (fun _ => True) (template [plain .string]) "\n" ∧ ¬ Matches expression "\n" := by
  have htextual : (template [plain .string]).Throughout fun t => t.isTextual = true := by decide
  obtain ⟨expression, hdescribe, -, honly⟩ := pattern_describes_template htextual fun _ => false
  refine ⟨expression, hdescribe, writes_template_singleton_iff.2 (.wild trivial), fun hm => ?_⟩
  have hwritten := writes_template_singleton_iff.1 (honly (by decide) _ hm)
  exact absurd (writes_string_iff.1 hwritten) (by decide)

end Schema

end ValueSchema
