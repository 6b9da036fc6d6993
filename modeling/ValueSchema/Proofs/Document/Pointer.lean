/-
# References of documents

A document refers to its definitions by JSON pointers: after a `#` come the keys that lead to the
place, each after a slash.  In a key a slash is written `~1`, and a tilde is written `~0`.  Pointers
stand in documents as they are, with no other characters escaped.

`Json.locate?` reads a pointer and follows it.  The document of a bundle has a reference wherever a
reference to a definition is rendered, in the root or in a body, and each of them leads to the
document of the definition: the bundle `Resolves`.
-/
import ValueSchema.Proofs.Definition.Registry
import ValueSchema.Proofs.Document.Rendering

namespace ValueSchema

namespace Json

/-! ## Pointers -/

/-- Puts a character in the place of every pair of two given ones. -/
def replacePair (first second char : Char) : List Char → List Char
  | a :: b :: rest =>
    if a = first ∧ b = second then char :: replacePair first second char rest
    else a :: replacePair first second char (b :: rest)
  | rest => rest

/-- A key as it is written in a pointer, read back: `~1` is a slash, and then `~0` is a tilde. -/
def unescape (token : List Char) : List Char :=
  replacePair '~' '0' '~' (replacePair '~' '1' '/' token)

/-- The keys of a pointer. -/
def keys? : List Char → Option (List String)
  | [] => some []
  | '/' :: tokens => some ((tokens.splitOn '/').map fun token => String.ofList (unescape token))
  | _ => none

/-- The value under some keys, one inside the other. -/
def follow? : List String → Json → Option Json
  | [], j => some j
  | key :: rest, j => (j.get? key).bind (follow? rest)

/-- What a reference inside a document leads to. -/
def locate? (document : Json) (reference : String) : Option Json :=
  match reference.toList with
  | '#' :: pointer => (keys? pointer).bind fun keys => follow? keys document
  | _ => none

end Json

namespace Schema

/-! ## Escaping -/

/-- A text with given escapes for the tilde and the slash. -/
def escapeChars (tilde slash : List Char) (text : List Char) : List Char :=
  text.flatMap fun c => if c = '~' then tilde else if c = '/' then slash else [c]

lemma toList_pointerEscape (id : String) :
    (pointerEscape id).toList = escapeChars ['~', '0'] ['~', '1'] id.toList := by
  rw [pointerEscape, String.toList_ofList]
  rfl

lemma replacePair_cons_of_ne {first second char c : Char} (h : c ≠ first) (rest : List Char) :
    Json.replacePair first second char (c :: rest) =
      c :: Json.replacePair first second char rest := by
  cases rest with
  | nil => rfl
  | cons b rest => simp [Json.replacePair, h]

/-- Reading the slashes leaves the tildes escaped, -/
lemma replacePair_slash (text : List Char) :
    Json.replacePair '~' '1' '/' (escapeChars ['~', '0'] ['~', '1'] text) =
      escapeChars ['~', '0'] ['/'] text := by
  induction text with
  | nil => rfl
  | cons c rest ih =>
    simp only [escapeChars, List.flatMap_cons] at ih ⊢
    split
    · rw [List.cons_append, List.cons_append, List.nil_append, Json.replacePair,
        if_neg (by decide), replacePair_cons_of_ne (by decide), ih]
      rfl
    · split
      · rw [List.cons_append, List.cons_append, List.nil_append, Json.replacePair,
          if_pos (by decide), ih]
        rfl
      · rw [List.singleton_append, replacePair_cons_of_ne ‹_›, ih]
        rfl

/-- and reading these gives the text. -/
lemma replacePair_tilde (text : List Char) :
    Json.replacePair '~' '0' '~' (escapeChars ['~', '0'] ['/'] text) = text := by
  induction text with
  | nil => rfl
  | cons c rest ih =>
    simp only [escapeChars, List.flatMap_cons] at ih ⊢
    split
    · subst c
      rw [List.cons_append, List.cons_append, List.nil_append, Json.replacePair,
        if_pos (by decide), ih]
    · split
      · subst c
        rw [List.singleton_append, replacePair_cons_of_ne (by decide), ih]
      · rw [List.singleton_append, replacePair_cons_of_ne ‹_›, ih]

lemma unescape_pointerEscape (id : String) :
    Json.unescape (pointerEscape id).toList = id.toList := by
  rw [Json.unescape, toList_pointerEscape, replacePair_slash, replacePair_tilde]

lemma slash_notMem_pointerEscape (id : String) : '/' ∉ (pointerEscape id).toList := by
  rw [toList_pointerEscape, escapeChars, List.mem_flatMap]
  rintro ⟨c, -, hc⟩
  split at hc
  · simp at hc
  · split at hc
    · simp at hc
    · rename_i hslash
      exact hslash (List.mem_singleton.1 hc).symm

lemma pointer_injective {id id' : String} (h : pointer id = pointer id') : id = id' := by
  have htext : (pointerEscape id).toList = (pointerEscape id').toList := by
    have hlist := congrArg String.toList h
    rw [pointer, pointer, String.toList_append, String.toList_append] at hlist
    exact List.append_cancel_left hlist
  have hid := congrArg Json.unescape htext
  rw [unescape_pointerEscape, unescape_pointerEscape] at hid
  exact String.toList_injective hid

/-- The pointer to a definition leads to it. -/
lemma locate?_pointer (document : Json) (id : String) :
    document.locate? (pointer id) =
      (document.get? "$defs").bind fun definitions => definitions.get? id := by
  have hkeys : Json.keys? ("/$defs/".toList ++ (pointerEscape id).toList) =
      some ["$defs", id] := by
    have hsplit : ("$defs".toList ++ '/' :: (pointerEscape id).toList).splitOn '/' =
        ["$defs".toList, (pointerEscape id).toList] := by
      rw [List.splitOn_append_cons_self_of_not_mem (by decide),
        List.splitOn_eq_singleton (slash_notMem_pointerEscape id)]
    change some ((("$defs".toList ++ '/' :: (pointerEscape id).toList).splitOn '/').map _) = _
    rw [hsplit, List.map_cons, List.map_singleton, unescape_pointerEscape, String.ofList_toList]
    rfl
  have hpointer : (pointer id).toList = '#' :: ("/$defs/".toList ++ (pointerEscape id).toList) := by
    rw [pointer, String.toList_append]
    rfl
  have hfollow : Json.follow? [id] = fun definitions => definitions.get? id := by
    funext definitions
    cases h : definitions.get? id <;> simp [Json.follow?, h]
  calc document.locate? (pointer id)
      = Option.bind (some ["$defs", id]) fun keys => Json.follow? keys document := by
        rw [Json.locate?, hpointer, ← hkeys]
        rfl
    _ = (document.get? "$defs").bind (Json.follow? [id]) := rfl
    _ = _ := by rw [hfollow]

end Schema

namespace Bundle

open Schema

/-! ## The references of the document of a bundle -/

/-- The definitions of a document are the documents of the definitions. -/
lemma get?_document_defs (b : Bundle) :
    b.document.get? "$defs" =
      if b.definitions.isEmpty then none else some (.obj b.definitionDocuments) := by
  obtain ⟨entries, -, hnot, hdocument⟩ := b.exists_document_eq
  rw [hdocument, Json.get?, Entries.get?_append, Entries.get?_eq_none_iff.2 hnot, Option.none_or]
  split <;> rfl

/-- The pointer to a definition leads to its document. -/
lemma locate?_document {b : Bundle} {id : String} {body : Schema}
    (h : Entries.get? id b.definitions = some body) :
    b.document.locate? (pointer id) = some (body.describe b.defines) := by
  have hsome : b.definitions.isEmpty = false := by
    rw [List.isEmpty_eq_false_iff_exists_mem]
    exact ⟨_, Entries.mem_of_get? h⟩
  rw [locate?_pointer, get?_document_defs, hsome]
  change Entries.get? id (Entries.mapValues _ b.definitions) = _
  rw [Entries.get?_mapValues, h, Option.map_some]

/-- A reference to a definition is rendered in the root, or in the body of a definition. -/
def Mentions (b : Bundle) (id : String) : Prop :=
  ∃ s, (s = b.root ∨ s ∈ Entries.values b.definitions) ∧ Schema.Mentions b.defines s id

/-- The keywords of the document of the root are those of the whole, but for the definitions. -/
lemma get?_document {b : Bundle} {key : String} (hkey : key ≠ "$defs") :
    b.document.get? key = (b.root.describe b.defines).get? key := by
  obtain ⟨entries, hroot, -, hdocument⟩ := b.exists_document_eq
  rw [hdocument, hroot, Json.get?, Json.get?, Entries.get?_append]
  split
  · rw [Entries.get?, Option.or_none]
  · rw [Entries.get?, if_neg (Ne.symm hkey), Entries.get?, Option.or_none]

/-- The document as a whole refers to what is mentioned. -/
lemma refersTo_document (b : Bundle) :
    RefersTo (fun id => b.defines id = true ∧ b.Mentions id) b.document := by
  have hmentioned : ∀ {s d k}, (s = b.root ∨ s ∈ Entries.values b.definitions) →
      Json.Inside d (s.describe b.defines) → d.get? "$ref" = some k →
        ∃ id, (b.defines id = true ∧ b.Mentions id) ∧ k = .str (pointer id) := by
    intro s d k hs hd hk
    obtain ⟨id, hid, rfl⟩ := (refersTo_describe s).1 d hd k hk
    exact ⟨id, ⟨hid.1, s, hs, hid⟩, rfl⟩
  obtain ⟨entries, hroot, -, hdocument⟩ := b.exists_document_eq
  intro d hd k hk
  rw [hdocument] at hd
  -- the keywords of the whole are those of the root, and the definitions behind them
  cases hd with
  | self =>
    rw [← hdocument, get?_document (by decide)] at hk
    exact hmentioned (Or.inl rfl) .self hk
  | under he hj hin =>
    rcases List.mem_append.1 he with hentry | hdefs
    · exact hmentioned (Or.inl rfl) (hroot ▸ .under hentry hj hin) hk
    · split at hdefs
      · cases hdefs
      · obtain rfl := List.mem_singleton.1 hdefs
        obtain ⟨e, he, rfl⟩ := List.mem_map.1 hj
        obtain ⟨e', he', rfl⟩ := List.mem_map.1 he
        exact hmentioned (Or.inr (List.mem_map_of_mem he')) hin hk

/-- What stands inside the document of the root or of a body stands inside the whole document, where
only the definitions may have been added to it. -/
lemma exists_inside_document {b : Bundle} {s : Schema} {d : Json}
    (hs : s = b.root ∨ s ∈ Entries.values b.definitions)
    (hd : Json.Inside d (s.describe b.defines)) :
    ∃ d', Json.Inside d' b.document ∧ ∀ key ≠ "$defs", d'.get? key = d.get? key := by
  obtain ⟨entries, hroot, -, hdocument⟩ := b.exists_document_eq
  rcases hs with rfl | hs
  · rw [hroot] at hd
    cases hd with
    -- the document of the root itself is not inside: the whole stands in its place
    | self => exact ⟨_, .self, fun key hkey => hroot ▸ get?_document hkey⟩
    | under he hj hin =>
      refine ⟨d, ?_, fun _ _ => rfl⟩
      rw [hdocument]
      exact .under (List.mem_append_left _ he) hj hin
  · obtain ⟨e, he, rfl⟩ := List.mem_map.1 hs
    have hsome : b.definitions.isEmpty = false := List.isEmpty_eq_false_iff_exists_mem.2 ⟨e, he⟩
    have hbody : e.2.describe b.defines ∈ Json.under "$defs" (.obj b.definitionDocuments) :=
      List.mem_map_of_mem (f := fun d : String × Json => d.2)
        (List.mem_map_of_mem (f := fun e => (e.1, e.2.describe b.defines)) he)
    refine ⟨d, hd.trans ?_, fun _ _ => rfl⟩
    rw [hdocument, hsome]
    exact Json.inside_of_under _ _ (List.mem_append_right _ (List.mem_singleton_self _)) hbody

/-- The references of a document and its definitions fit together. -/
structure Resolves (b : Bundle) : Prop where
  /-- A reference to a definition is written with its id, as one key of a pointer. -/
  describe_reference : ∀ name arguments, ∀ id ∈ Entries.names b.definitions, ∃ token,
    (reference name arguments id).describe b.defines =
        .obj [("$ref", .str ("#/$defs/" ++ String.ofList token))] ∧
      '/' ∉ token ∧ Json.unescape token = id.toList
  /-- Different definitions have different references. -/
  id_eq : ∀ name arguments name' arguments',
    ∀ id ∈ Entries.names b.definitions, ∀ id' ∈ Entries.names b.definitions,
      (reference name arguments id).describe b.defines =
        (reference name' arguments' id').describe b.defines → id = id'
  /-- A document without definitions is that of a schema without definitions. -/
  defs_eq_none_iff : b.document.get? "$defs" = none ↔ b.definitions = []
  /-- The ids of the definitions are the keys under which the document has definitions. -/
  names_defs : ∀ j, b.document.get? "$defs" = some j →
    ∃ entries, j = .obj entries ∧ Entries.names entries = Entries.names b.definitions
  /-- Every reference, anywhere in the document, leads to the document of a definition. -/
  locate : ∀ d, Json.Inside d b.document → ∀ j, d.get? "$ref" = some j →
    ∃ id body, Entries.get? id b.definitions = some body ∧ j = .str (pointer id) ∧
      b.document.locate? (pointer id) = some (body.describe b.defines)
  /-- The document is that of the root.  Behind its keywords, the documents of all bodies stand
  under `$defs` with their ids, if there are any. -/
  document_eq : ∃ entries, b.root.describe b.defines = .obj entries ∧
    "$defs" ∉ Entries.names entries ∧
    b.document = .obj (entries ++ if b.definitions.isEmpty then []
      else [("$defs", .obj (b.definitions.map fun e => (e.1, e.2.describe b.defines)))])
  /-- The document refers to a definition if and only if a reference to it is rendered, in the root
  or in the body of a definition. -/
  refers_iff : ∀ id ∈ Entries.names b.definitions,
    (∃ d, Json.Inside d b.document ∧ d.get? "$ref" = some (.str (pointer id))) ↔
      ∃ s, (s = b.root ∨ s ∈ Entries.values b.definitions) ∧
        ∃ name arguments, Renders b.defines (reference name arguments id) s

lemma describe_reference_of_mem {b : Bundle} {id : String}
    (h : id ∈ Entries.names b.definitions) (name : String) (arguments : List Schema) :
    (reference name arguments id).describe b.defines = .obj [("$ref", .str (pointer id))] := by
  have hid : b.defines id = true := Entries.contains_eq_true_iff.2 h
  rw [describe, if_pos hid]

/-- The references of every document resolve. -/
theorem resolves_document (b : Bundle) : b.Resolves where
  describe_reference := by
    intro name arguments id hid
    refine ⟨(pointerEscape id).toList, ?_, slash_notMem_pointerEscape id,
      unescape_pointerEscape id⟩
    rw [describe_reference_of_mem hid, String.ofList_toList, pointer]
  id_eq := by
    intro name arguments name' arguments' id hid id' hid' h
    rw [describe_reference_of_mem hid, describe_reference_of_mem hid'] at h
    have hpointer : pointer id = pointer id' := by simpa using h
    exact pointer_injective hpointer
  defs_eq_none_iff := by
    rw [get?_document_defs, ← List.isEmpty_iff]
    split <;> simp [*]
  names_defs := by
    intro j hj
    rw [get?_document_defs] at hj
    split at hj
    · cases hj
    · exact ⟨_, (Option.some.inj hj).symm, Entries.names_mapValues _ _⟩
  locate := by
    intro d hd j hj
    obtain ⟨id, ⟨hid, -⟩, rfl⟩ := b.refersTo_document d hd j hj
    obtain ⟨body, hbody⟩ := Option.isSome_iff_exists.1 hid
    exact ⟨id, body, hbody, rfl, locate?_document hbody⟩
  document_eq := b.exists_document_eq
  refers_iff := by
    intro id hid
    constructor
    · rintro ⟨d, hd, hreference⟩
      obtain ⟨id', ⟨-, s, hs, -, hrendered⟩, hpointer⟩ := b.refersTo_document d hd _ hreference
      obtain rfl : id = id' := pointer_injective (Json.str.inj hpointer)
      exact ⟨s, hs, hrendered⟩
    · rintro ⟨s, hs, name, arguments, hrendered⟩
      obtain ⟨d, hd, hkeys⟩ := exists_inside_document hs hrendered.inside_describe
      refine ⟨d, hd, ?_⟩
      rw [hkeys "$ref" (by decide), describe_reference_of_mem hid]
      rfl

/-- Boxes whose texts have slashes and tildes.  The root refers to one of them, which may have
another one inside, and this one holds a list of the first one. -/
def boxes : Bundle where
  root := .object [("first", .reference "Box" [.string "a/b"] "Box<\"a/b\">")] []
  definitions :=
    [("Box<\"a/b\">", .object [("next",
        .union [.reference "Box" [.string "~1"] "Box<\"~1\">", .undefined])] []),
      ("Box<\"~1\">", .array (.reference "Box" [.string "a/b"] "Box<\"a/b\">"))]

/-- Both boxes are referred to, by pointers in which their texts are escaped, and these lead to
their documents. -/
theorem resolves_document_boxes :
    (∃ d, Json.Inside d boxes.document ∧ d.get? "$ref" = some (.str "#/$defs/Box<\"a~1b\">")) ∧
      (∃ d, Json.Inside d boxes.document ∧ d.get? "$ref" = some (.str "#/$defs/Box<\"~01\">")) ∧
      boxes.document.locate? "#/$defs/Box<\"~01\">" =
        some (.obj [("type", .str "array"),
          ("items", .obj [("$ref", .str "#/$defs/Box<\"a~1b\">")])]) := by
  have h := resolves_document boxes
  have hslash : pointer "Box<\"a/b\">" = "#/$defs/Box<\"a~1b\">" := by decide +kernel
  have htilde : pointer "Box<\"~1\">" = "#/$defs/Box<\"~01\">" := by decide +kernel
  have hfirst := (h.refers_iff "Box<\"a/b\">" (by decide +kernel)).2
    ⟨boxes.root, Or.inl rfl, "Box", [.string "a/b"],
      .property (List.mem_singleton_self _) (List.mem_singleton_self _) (Or.inl rfl) .self⟩
  have hnext := (h.refers_iff "Box<\"~1\">" (by decide +kernel)).2
    ⟨_, Or.inr (.head _), "Box", [.string "~1"],
      .property (List.mem_singleton_self _) (List.mem_singleton_self _) (Or.inl rfl) .self⟩
  rw [hslash] at hfirst
  rw [htilde] at hnext
  refine ⟨hfirst, hnext, ?_⟩
  obtain ⟨d, hd, hreference⟩ := hnext
  obtain ⟨id, body, hbody, hpointer, hlocate⟩ := h.locate d hd _ hreference
  obtain rfl : "Box<\"~1\">" = id :=
    pointer_injective (htilde.trans (Json.str.inj hpointer))
  obtain rfl := Option.some.inj hbody
  have hid : "Box<\"a/b\">" ∈ Entries.names boxes.definitions := by decide +kernel
  calc boxes.document.locate? "#/$defs/Box<\"~01\">"
      = some ((array (reference "Box" [.string "a/b"] "Box<\"a/b\">")).describe boxes.defines) :=
        htilde ▸ hlocate
    _ = _ := by rw [describe, if_neg (by decide), describe_reference_of_mem hid, hslash]

end Bundle

end ValueSchema
