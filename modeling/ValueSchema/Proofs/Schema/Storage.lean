/-
# Stored schemas are read back

The stored form of a schema is read back as the schema without its origins, provided that every
number in it is finite; if there is another number in it, then its stored form is not read at all.
`Schema.gives_decodeWithin?` says both at once.  The induction is over the schema, and how much depth
the reader is given does not matter as long as it suffices for the stored form.

An object of a stored form is a map, in which a reader sees no key twice.  Where no object of a
schema has a name twice, nothing is lost by that.  For a schema with its definitions all of this is
`Bundle.decode?_normalize_encode`.
-/
import ValueSchema.Proofs.Entries
import ValueSchema.Proofs.Schema.Throughout
import ValueSchema.Schema.Codec

namespace ValueSchema

/-! ## The depth of stored forms -/

namespace Json

lemma depth_le_depthAll {j : Json} {items : List Json} (h : j ∈ items) :
    j.depth ≤ depthAll items := by
  induction items with
  | nil => cases h
  | cons first rest ih =>
    rw [depthAll]
    rcases List.mem_cons.1 h with rfl | hrest
    · exact Nat.le_max_left _ _
    · exact Nat.le_trans (ih hrest) (Nat.le_max_right _ _)

lemma depth_le_depthEntries {e : String × Json} {entries : List (String × Json)} (h : e ∈ entries) :
    e.2.depth ≤ depthEntries entries := by
  induction entries with
  | nil => cases h
  | cons first rest ih =>
    rw [depthEntries]
    rcases List.mem_cons.1 h with rfl | hrest
    · exact Nat.le_max_left _ _
    · exact Nat.le_trans (ih hrest) (Nat.le_max_right _ _)

lemma normalizeAll_eq_map (items : List Json) : normalizeAll items = items.map normalize := by
  induction items with
  | nil => rfl
  | cons j rest ih => rw [normalizeAll, ih, List.map_cons]

lemma normalizeEntries_eq_map (entries : List (String × Json)) :
    normalizeEntries entries = Entries.mapValues normalize entries := by
  induction entries with
  | nil => rfl
  | cons e rest ih => rw [normalizeEntries, ih, Entries.mapValues, Entries.mapValues, List.map_cons]

/-- An object without repeated keys is normal if its values are. -/
lemma normalize_obj {entries : List (String × Json)} (hnames : (Entries.names entries).Nodup)
    (h : ∀ e ∈ entries, e.2.normalize = e.2) : (obj entries).normalize = obj entries := by
  have hvalues : Entries.mapValues normalize entries = entries := by
    refine (List.map_congr_left fun e he => ?_).trans (List.map_id' entries)
    rw [h e he]
  rw [normalize, normalizeEntries_eq_map, hvalues, Entries.ofList_of_nodup hnames]

lemma normalize_arr {items : List Json} (h : ∀ j ∈ items, j.normalize = j) :
    (arr items).normalize = arr items := by
  rw [normalize, normalizeAll_eq_map, List.map_congr_left h, List.map_id']

end Json

namespace Schema

lemma encodeAll_eq_map (items : List Schema) : encodeAll items = items.map encode := by
  induction items with
  | nil => rfl
  | cons s rest ih => rw [encodeAll, ih, List.map_cons]

lemma encodeEntries_eq_map (items : List (String × Schema)) :
    encodeEntries items = Entries.mapValues encode items := by
  induction items with
  | nil => rfl
  | cons e rest ih => rw [encodeEntries, ih, Entries.mapValues, Entries.mapValues, List.map_cons]

lemma encodeNamed_eq_map (items : List (String × Schema)) :
    encodeNamed items = items.map fun e => .arr [.str e.1, encode e.2] := by
  induction items with
  | nil => rfl
  | cons e rest ih => rw [encodeNamed, ih, List.map_cons]

lemma encodePairs_eq_map (items : List (Schema × Schema)) :
    encodePairs items = items.map fun e => .arr [encode e.1, encode e.2] := by
  induction items with
  | nil => rfl
  | cons e rest ih => rw [encodePairs, ih, List.map_cons]

/-- The stored form of a child is less deep. -/
lemma depth_encode_lt {s t : Schema} (h : t ∈ s.children) : t.encode.depth < s.encode.depth := by
  have all : ∀ {items : List Schema}, t ∈ items →
      t.encode.depth ≤ Json.depthAll (encodeAll items) := fun ht => by
    rw [encodeAll_eq_map]
    exact Json.depth_le_depthAll (List.mem_map_of_mem ht)
  have pair : ∀ {items : List Json} {j k : Json}, Json.arr [j, k] ∈ items →
      j.depth ≤ Json.depthAll items ∧ k.depth ≤ Json.depthAll items := fun hmem => by
    have hle := Json.depth_le_depthAll hmem
    simp only [Json.depth, Json.depthAll] at hle
    omega
  cases s with
  | primitive | literal | error => cases h
  | union items | intersection items | tuple items | template items | reference _ items =>
    have hle : t.encode.depth ≤ Json.depthAll (encodeAll items) := all h
    simp only [encode, Json.depth, Json.depthEntries]
    omega
  | array item | keys item =>
    obtain rfl := List.mem_singleton.1 h
    simp only [encode, Json.depth, Json.depthEntries]
    omega
  | object properties indexKeys =>
    simp only [encode, Json.depth, Json.depthEntries]
    rcases List.mem_append.1 h with hproperty | hkey
    · obtain ⟨e, he, rfl⟩ := List.mem_map.1 hproperty
      have hle : e.2.encode.depth ≤ Json.depthEntries (encodeEntries properties) := by
        rw [encodeEntries_eq_map]
        exact Json.depth_le_depthEntries (e := (e.1, e.2.encode)) (List.mem_map.2 ⟨e, he, rfl⟩)
      omega
    · obtain ⟨e, he, hte⟩ := List.mem_flatMap.1 hkey
      have hmem : Json.arr [e.1.encode, e.2.encode] ∈ encodePairs indexKeys := by
        rw [encodePairs_eq_map]
        exact List.mem_map.2 ⟨e, he, rfl⟩
      have hle := pair hmem
      rcases List.mem_pair.1 hte with rfl | rfl <;> omega
  | function parameters result =>
    simp only [encode, Json.depth, Json.depthEntries]
    rcases List.mem_append.1 h with hparameter | hresult
    · obtain ⟨e, he, rfl⟩ := List.mem_map.1 hparameter
      have hmem : Json.arr [.str e.1, e.2.encode] ∈ encodeNamed parameters := by
        rw [encodeNamed_eq_map]
        exact List.mem_map.2 ⟨e, he, rfl⟩
      have hle := pair hmem
      omega
    · obtain rfl := List.mem_singleton.1 hresult
      omega
  | binary _ left right | access left right =>
    simp only [encode, Json.depth, Json.depthEntries]
    rcases List.mem_pair.1 h with rfl | rfl <;> omega

/-! ## What is read back -/

/-- Whether a schema is a finite number, or no number at all. -/
def isFinite : Schema → Bool
  | literal (.number x) => Number.isFinite x
  | _ => true

/-- A schema without its origins. -/
def eraseOrigins : Schema → Schema := transform (fun _ => none) (mapOrigin fun _ => none)

lemma eraseOrigins_eq (s : Schema) :
    s.eraseOrigins = (s.mapChildren eraseOrigins).mapOrigin fun _ => none := by
  rw [eraseOrigins, transform_eq]
  rfl

/-- A reading has a result just if `p` holds, and then the result is `a`. -/
def Gives {α : Type} (o : Option α) (p : Prop) (a : α) : Prop := ∀ b, o = some b ↔ p ∧ b = a

namespace Gives

variable {α β : Type} {o : Option α} {p q : Prop} {a : α} {b : β}

lemma some (a : α) : Gives (some a) True a := by
  intro c
  rw [Option.some_inj, true_and, eq_comm]

lemma congr (h : Gives o p a) (hpq : p ↔ q) : Gives o q a := by
  intro c
  rw [← hpq]
  exact h c

lemma map (h : Gives o p a) (f : α → β) : Gives (o.bind fun a => .some (f a)) p (f a) := by
  intro c
  rw [Option.bind_eq_some_iff]
  constructor
  · rintro ⟨d, hd, hc⟩
    obtain ⟨hp, rfl⟩ := (h d).1 hd
    exact ⟨hp, (Option.some_inj.1 hc).symm⟩
  · rintro ⟨hp, rfl⟩
    exact ⟨a, (h a).2 ⟨hp, rfl⟩, rfl⟩

lemma bind {f : α → Option β} (ho : Gives o p a) (hf : Gives (f a) q b) :
    Gives (o.bind f) (p ∧ q) b := by
  intro c
  rw [Option.bind_eq_some_iff, and_assoc, ← hf c]
  constructor
  · rintro ⟨d, hd, hc⟩
    obtain ⟨hp, rfl⟩ := (ho d).1 hd
    exact ⟨hp, hc⟩
  · rintro ⟨hp, hc⟩
    exact ⟨a, (ho a).2 ⟨hp, rfl⟩, hc⟩

lemma mapM {f : α → Option β} {p : α → Prop} {g : α → β} {items : List α}
    (h : ∀ x ∈ items, Gives (f x) (p x) (g x)) :
    Gives (items.mapM f) (∀ x ∈ items, p x) (items.map g) := by
  induction items with
  | nil => exact (some []).congr (by simp)
  | cons x rest ih =>
    have hrest := ih fun y hy => h y (List.mem_cons_of_mem _ hy)
    have hx := h x (List.mem_cons_self ..)
    rw [List.mapM_cons, List.forall_mem_cons]
    exact hx.bind (hrest.map _)

end Gives

/-- Puts a schema together from what is read for the schemas inside it. -/
def restore? (read : Schema → Option Schema) : Schema → Option Schema
  | primitive kind _ => some (plain kind)
  | literal (.number x) => if Number.isFinite x then some (number x) else none
  | literal value => some (literal value)
  | union items => return union (← items.mapM read)
  | intersection items => return intersection (← items.mapM read)
  | tuple items flags => return tuple (← items.mapM read) flags
  | array item => return array (← read item)
  | object properties indexKeys => do
    let properties ← properties.mapM fun e => return (e.1, ← read e.2)
    let indexKeys ← indexKeys.mapM fun e => return (← read e.1, ← read e.2)
    return object properties indexKeys
  | function parameters result => do
    let parameters ← parameters.mapM fun e => return (e.1, ← read e.2)
    return function parameters (← read result)
  | binary op left right => return binary op (← read left) (← read right)
  | template items => return template (← items.mapM read)
  | keys subject _ => return keys (← read subject) none
  | access target key _ => return access (← read target) (← read key) none
  | reference name arguments id => return reference name (← arguments.mapM read) id
  | error reason _ => some (failure reason)

lemma decodeLiteral?_encodeLiteral (read : Schema → Option Schema) (value : Literal) :
    (do return literal (← decodeLiteral? (encodeLiteral value))) = (literal value).restore? read := by
  cases value with
  | number x =>
    rw [encodeLiteral, restore?]
    split <;> rfl
  | _ => rfl

lemma mapM_ofName?_name (flags : List ElementFlag) :
    (flags.map fun f => Json.str f.name).mapM
      (fun j => (constantName? j).bind ElementFlag.ofName?) = some flags := by
  induction flags with
  | nil => rfl
  | cons f rest ih =>
    have hf : (constantName? (.str f.name)).bind ElementFlag.ofName? = some f := by cases f <;> rfl
    rw [List.map_cons, List.mapM_cons, hf, ih]
    rfl

/-- A stored form is read from the readings of the stored forms inside it.  The stored form has every
entry that the reader looks up, so that each kind is read by computation; what is left are the names
of constants and the lists. -/
lemma decodeWithin?_succ_encode (depth : Nat) (inside : Bool) (s : Schema) :
    decodeWithin? (depth + 1) inside s.encode =
      s.restore? fun t => decodeWithin? depth true t.encode := by
  rw [decodeWithin?]
  generalize decodeWithin? depth true = read
  have hall : ∀ items, (items.mapM fun t => read t.encode) = (encodeAll items).mapM read := by
    intro items
    rw [encodeAll_eq_map, List.mapM_map]
    rfl
  cases s with
  | primitive kind o =>
    calc _ = (do return plain (← Primitive.ofName? kind.name)) := by cases inside <;> rfl
      _ = some (plain kind) := by rw [Primitive.ofName?_name]; rfl
  | literal value =>
    calc _ = (do return literal (← decodeLiteral? (encodeLiteral value))) := by cases inside <;> rfl
      _ = _ := decodeLiteral?_encodeLiteral _ value
  | union items | intersection items | template items | reference _ items =>
    rw [restore?, hall]
    cases inside <;> rfl
  | tuple items flags =>
    rw [restore?, hall]
    calc _ = (do
            let flags ← (flags.map fun f => Json.str f.name).mapM
              fun j => (constantName? j).bind ElementFlag.ofName?
            return tuple (← (encodeAll items).mapM read) flags) := by cases inside <;> rfl
      _ = _ := by rw [mapM_ofName?_name]; rfl
  | object properties indexKeys =>
    have hproperties : (properties.mapM fun e => (do return (e.1, ← read e.2.encode))) =
        (encodeEntries properties).mapM fun e => (do return (e.1, ← read e.2)) := by
      rw [encodeEntries_eq_map, Entries.mapValues, List.mapM_map]
      rfl
    have hkeys : (indexKeys.mapM fun e => (do return (← read e.1.encode, ← read e.2.encode))) =
        (encodePairs indexKeys).mapM fun j => (do
          let e ← pair? j
          return (← read e.1, ← read e.2)) := by
      rw [encodePairs_eq_map, List.mapM_map]
      rfl
    rw [restore?, hproperties, hkeys]
    cases inside <;> rfl
  | function parameters result =>
    have hparameters : (parameters.mapM fun e => (do return (e.1, ← read e.2.encode))) =
        (encodeNamed parameters).mapM fun j => (do
          let e ← pair? j
          return (← text? e.1, ← read e.2)) := by
      rw [encodeNamed_eq_map, List.mapM_map]
      rfl
    rw [restore?, hparameters]
    cases inside <;> rfl
  | binary op left right =>
    calc _ = (do
            let op ← BinaryOperator.ofText? op.text
            return binary op (← read left.encode) (← read right.encode)) := by cases inside <;> rfl
      _ = _ := by rw [BinaryOperator.ofText?_text]; rfl
  | array | keys | access | error => cases inside <;> rfl

/-- The schema that is put together has its parts from the readings, and no origin. -/
lemma gives_restore? {read : Schema → Option Schema} {p : Schema → Prop} {g : Schema → Schema}
    {s : Schema} (h : ∀ t ∈ s.children, Gives (read t) (p t) (g t)) :
    Gives (s.restore? read) (s.isFinite ∧ ∀ t ∈ s.children, p t)
      ((s.mapChildren g).mapOrigin fun _ => none) := by
  have named : ∀ {items : List (String × Schema)}, (∀ t ∈ items.map (·.2), t ∈ s.children) →
      Gives (items.mapM fun e => (do return (e.1, ← read e.2))) (∀ t ∈ items.map (·.2), p t)
        (items.map fun e => (e.1, g e.2)) := by
    intro items hitems
    rw [List.forall_mem_map] at hitems ⊢
    exact .mapM fun e he => (h e.2 (hitems e he)).map _
  cases s with
  | primitive kind o | error reason o => exact (Gives.some _).congr (by simp [isFinite, children])
  | literal value =>
    refine Gives.congr ?_ (and_iff_left (List.forall_mem_nil _)).symm
    cases value with
    | number x =>
      rw [restore?]
      split
      · exact (Gives.some _).congr (by simpa [isFinite])
      · intro b
        simp [isFinite, *]
    | _ => exact (Gives.some _).congr (by simp [isFinite])
  | union items | intersection items | template items | tuple items | reference _ items =>
    exact ((Gives.mapM h).map _).congr (by simp [isFinite])
  | object properties indexKeys =>
    have hproperties := named (fun t ht => List.mem_append_left _ ht)
    have hkeys : Gives (indexKeys.mapM fun e => (do return (← read e.1, ← read e.2)))
        (∀ e ∈ indexKeys, ∀ t ∈ [e.1, e.2], p t) (indexKeys.map fun e => (g e.1, g e.2)) := by
      refine .mapM fun e he => ?_
      have hpair : ∀ t ∈ [e.1, e.2], Gives (read t) (p t) (g t) := fun t ht =>
        h t (List.mem_append_right _ (List.mem_flatMap.2 ⟨e, he, ht⟩))
      exact ((hpair e.1 (by simp)).bind ((hpair e.2 (by simp)).map _)).congr (by simp)
    refine (hproperties.bind (hkeys.map _)).congr ?_
    simp only [isFinite, children, List.forall_mem_append, List.forall_mem_flatMap, true_and]
  | function parameters result =>
    have hparameters := named (fun t ht => List.mem_append_left _ ht)
    have hresult := h result (List.mem_append_right _ (List.mem_singleton_self _))
    refine (hparameters.bind (hresult.map _)).congr ?_
    simp only [isFinite, children, List.forall_mem_append, List.forall_mem_singleton, true_and]
  | binary _ left right | access left right =>
    have hleft := h left (List.mem_cons_self ..)
    have hright := h right (List.mem_cons_of_mem _ (List.mem_singleton_self _))
    exact (hleft.bind (hright.map _)).congr (by simp [isFinite, children])
  | array item | keys item =>
    exact ((h item (List.mem_singleton_self _)).map _).congr (by simp [isFinite, children])

/-- The stored form of a schema is read just if all numbers in it are finite, and then as the schema
without its origins. -/
lemma gives_decodeWithin? (s : Schema) : ∀ (depth : Nat) (inside : Bool), s.encode.depth ≤ depth →
    Gives (decodeWithin? depth inside s.encode) (s.Throughout (·.isFinite)) s.eraseOrigins := by
  induction s using Schema.induction with
  | step s ih =>
    intro depth inside hdepth
    cases depth with
    | zero => cases s <;> simp [encode, Json.depth] at hdepth
    | succ depth =>
      rw [decodeWithin?_succ_encode, throughout_iff, eraseOrigins_eq]
      refine gives_restore? fun t ht => ih t ht depth true ?_
      have hlt := depth_encode_lt ht
      omega

/-! ## Stored forms are maps -/

/-- Whether a schema is an object whose properties have different names, or no object at all. -/
def hasDistinctNames : Schema → Bool
  | object properties _ => decide (Entries.names properties).Nodup
  | _ => true

lemma normalize_encodeLiteral (value : Literal) :
    (encodeLiteral value).normalize = encodeLiteral value := by
  cases value with
  | number x =>
    rw [encodeLiteral]
    split <;> rfl
  | _ => rfl

lemma normalize_encodeAll {items : List Schema} (h : ∀ t ∈ items, t.encode.normalize = t.encode) :
    (Json.arr (encodeAll items)).normalize = .arr (encodeAll items) := by
  rw [encodeAll_eq_map]
  exact Json.normalize_arr (List.forall_mem_map.2 h)

/-- Named schemas are stored as a map if their names are different. -/
lemma normalize_encodeEntries {items : List (String × Schema)} (hnames : (Entries.names items).Nodup)
    (h : ∀ e ∈ items, e.2.encode.normalize = e.2.encode) :
    (Json.obj (encodeEntries items)).normalize = .obj (encodeEntries items) := by
  rw [encodeEntries_eq_map]
  refine Json.normalize_obj (by rwa [Entries.names_mapValues]) ?_
  exact List.forall_mem_map.2 h

lemma normalize_encode {s : Schema} (h : s.Throughout (·.hasDistinctNames)) :
    s.encode.normalize = s.encode := by
  induction s using Schema.induction with
  | step s ih =>
    have hchild : ∀ t ∈ s.children, t.encode.normalize = t.encode := fun t ht =>
      ih t ht (h.of_mem_children ht)
    have hstr : ∀ text, (Json.str text).normalize = .str text := fun _ => rfl
    cases s with
    | primitive | error => rfl
    | literal value =>
      exact Json.normalize_obj (by simp [Entries.names]) (by simp [hstr, normalize_encodeLiteral])
    | union items | intersection items | template items | reference _ items =>
      have hitems : (Json.arr (encodeAll items)).normalize = .arr (encodeAll items) :=
        normalize_encodeAll hchild
      exact Json.normalize_obj (by simp [Entries.names]) (by simp [hstr, hitems])
    | tuple items flags =>
      have hitems : (Json.arr (encodeAll items)).normalize = .arr (encodeAll items) :=
        normalize_encodeAll hchild
      have hflags : (Json.arr (flags.map fun f => .str f.name)).normalize =
          .arr (flags.map fun f => .str f.name) :=
        Json.normalize_arr (List.forall_mem_map.2 fun f _ => hstr f.name)
      exact Json.normalize_obj (by simp [Entries.names]) (by simp [hstr, hitems, hflags])
    | object properties indexKeys =>
      have hproperties := normalize_encodeEntries (of_decide_eq_true h.here) fun e he =>
        hchild e.2 (List.mem_append_left _ (List.mem_map_of_mem he))
      have hkeys : (Json.arr (encodePairs indexKeys)).normalize = .arr (encodePairs indexKeys) := by
        rw [encodePairs_eq_map]
        refine Json.normalize_arr (List.forall_mem_map.2 fun e he => Json.normalize_arr ?_)
        have hpair : ∀ t ∈ [e.1, e.2], t.encode.normalize = t.encode := fun t ht =>
          hchild t (List.mem_append_right _ (List.mem_flatMap.2 ⟨e, he, ht⟩))
        show ∀ j ∈ [e.1, e.2].map encode, j.normalize = j
        exact List.forall_mem_map.2 hpair
      exact Json.normalize_obj (by simp [Entries.names]) (by simp [hstr, hproperties, hkeys])
    | function parameters result =>
      have hparameters : (Json.arr (encodeNamed parameters)).normalize =
          .arr (encodeNamed parameters) := by
        rw [encodeNamed_eq_map]
        refine Json.normalize_arr (List.forall_mem_map.2 fun e he => Json.normalize_arr ?_)
        have hvalue := hchild e.2 (List.mem_append_left _ (List.mem_map_of_mem he))
        exact List.forall_mem_cons.2 ⟨hstr e.1, List.forall_mem_singleton.2 hvalue⟩
      have hresult := hchild result (List.mem_append_right _ (List.mem_singleton_self _))
      exact Json.normalize_obj (by simp [Entries.names]) (by simp [hstr, hparameters, hresult])
    | binary _ left right | access left right =>
      have hleft := hchild left (List.mem_cons_self ..)
      have hright := hchild right (List.mem_cons_of_mem _ (List.mem_singleton_self _))
      exact Json.normalize_obj (by simp [Entries.names]) (by simp [hstr, hleft, hright])
    | array item | keys item =>
      have hitem := hchild item (List.mem_singleton_self _)
      exact Json.normalize_obj (by simp [Entries.names]) (by simp [hstr, hitem])

end Schema

namespace Bundle

/-- A property of the schema, of the definitions and of everything inside them. -/
def Throughout (p : Schema → Prop) (b : Bundle) : Prop :=
  b.root.Throughout p ∧ ∀ e ∈ b.definitions, e.2.Throughout p

instance (p : Schema → Prop) [DecidablePred p] (b : Bundle) : Decidable (b.Throughout p) :=
  inferInstanceAs (Decidable (_ ∧ _))

/-- A schema and its definitions without origins. -/
def eraseOrigins (b : Bundle) : Bundle :=
  ⟨b.root.eraseOrigins, Entries.mapValues Schema.eraseOrigins b.definitions⟩

/-- If no object and not the definitions have a name twice, then what is stored is read just if all
numbers are finite, and then everything is as it was, in the same order, except for the origins. -/
theorem decode?_normalize_encode {b : Bundle} (hnames : b.Throughout (·.hasDistinctNames))
    (hkeys : (Entries.names b.definitions).Nodup) (c : Bundle) :
    decode? b.encode.normalize = some c ↔ b.Throughout (·.isFinite) ∧ c = b.eraseOrigins := by
  have hnormal : b.encode.normalize = b.encode := by
    have hroot := Schema.normalize_encode hnames.1
    have hdefinitions := Schema.normalize_encodeEntries hkeys fun e he =>
      Schema.normalize_encode (hnames.2 e he)
    exact Json.normalize_obj (by simp [Entries.names]) (by simp [hroot, hdefinitions])
  have hroot : Schema.Gives (Schema.decode? b.root.encode) (b.root.Throughout (·.isFinite))
      b.root.eraseOrigins := Schema.gives_decodeWithin? b.root _ _ (Nat.le_refl _)
  have hdefinitions : Schema.Gives
      ((Schema.encodeEntries b.definitions).mapM fun e => (do return (e.1, ← Schema.decode? e.2)))
      (∀ e ∈ b.definitions, e.2.Throughout (·.isFinite))
      (Entries.mapValues Schema.eraseOrigins b.definitions) := by
    rw [Schema.encodeEntries_eq_map, Entries.mapValues, List.mapM_map]
    refine .mapM fun e he => ?_
    exact (Schema.gives_decodeWithin? e.2 _ _ (Nat.le_refl _)).map _
  rw [hnormal]
  exact hroot.bind (hdefinitions.map _) c

/-- An object of a given depth whose other values are still open, with a definition. -/
def drawer (depth : Float) : Bundle where
  root := .object [("width", .primitive .number (some ⟨7⟩)), ("depth", .number depth),
      ("label", .template [.string "no. ", .primitive .string (some ⟨9⟩)])]
    [(.plain .string, .reference "List" [.plain .any] "List<any>")]
  definitions := [("List<any>", .tuple [.plain .any, .reference "List" [.plain .any] "List<any>"]
    [.required, .rest])]

/-- Two is read back, and infinity is not. -/
theorem decode?_normalize_encode_drawer :
    decode? (drawer 2).encode.normalize = some (drawer 2).eraseOrigins ∧
      decode? (drawer (1 / 0)).encode.normalize = none := by
  constructor
  · exact (decode?_normalize_encode (by decide +kernel) (by decide +kernel) _).2
      ⟨by decide +kernel, rfl⟩
  · refine Option.eq_none_iff_forall_ne_some.2 fun c hc => ?_
    have hfinite : (drawer (1 / 0)).Throughout (·.isFinite) :=
      ((decode?_normalize_encode (by decide +kernel) (by decide +kernel) c).1 hc).1
    exact absurd hfinite (by decide +kernel)

end Bundle

end ValueSchema
