/-
# Looking up names in maps

What `Entries.get?` finds, in terms of the entries, and how it sees the operations that the
reduction of definitions is made of: leaving out names, and changing all values.
-/
import Mathlib.Data.List.Induction
import Mathlib.Data.List.Nodup
import Mathlib.Tactic.Common
import ValueSchema.Entries

namespace ValueSchema.Entries

variable {α β : Type}

lemma mem_of_get? {name : String} {value : α} {entries : Entries α}
    (h : get? name entries = some value) : (name, value) ∈ entries := by
  induction entries with
  | nil => simp [get?] at h
  | cons e rest ih =>
    obtain ⟨k, v⟩ := e
    by_cases hk : k = name
    · subst hk
      obtain rfl : v = value := by simpa [get?] using h
      exact List.mem_cons_self
    · simp only [get?, if_neg hk] at h
      exact List.mem_cons_of_mem _ (ih h)

lemma mem_names_of_mem {e : String × α} {entries : Entries α} (h : e ∈ entries) :
    e.1 ∈ names entries := List.mem_map_of_mem h

lemma get?_eq_none_iff {name : String} {entries : Entries α} :
    get? name entries = none ↔ name ∉ names entries := by
  induction entries with
  | nil => simp [get?, names]
  | cons e rest ih =>
    obtain ⟨k, v⟩ := e
    by_cases hk : k = name
    · simp [get?, names, hk]
    · simpa [get?, names, hk, Ne.symm hk] using ih

@[simp] lemma contains_eq_true_iff {name : String} {entries : Entries α} :
    contains name entries = true ↔ name ∈ names entries := by
  rw [contains, Option.isSome_iff_ne_none, ne_eq, get?_eq_none_iff, not_not]

@[simp] lemma contains_eq_false_iff {name : String} {entries : Entries α} :
    contains name entries = false ↔ name ∉ names entries := by
  rw [← contains_eq_true_iff, Bool.not_eq_true]

/-- In a map every entry is found under its name. -/
lemma get?_of_mem {name : String} {value : α} {entries : Entries α} (hmap : (names entries).Nodup)
    (h : (name, value) ∈ entries) : get? name entries = some value := by
  induction entries with
  | nil => simp at h
  | cons e rest ih =>
    obtain ⟨k, v⟩ := e
    simp only [names, List.map_cons, List.nodup_cons] at hmap
    rcases List.mem_cons.1 h with heq | hrest
    · obtain ⟨rfl, rfl⟩ := Prod.mk.inj heq
      simp [get?]
    · have hk : k ≠ name := by
        rintro rfl
        exact hmap.1 (mem_names_of_mem hrest)
      simpa [get?, hk] using ih hmap.2 hrest

@[simp] lemma get?_mapValues (f : α → β) (name : String) (entries : Entries α) :
    get? name (mapValues f entries) = (get? name entries).map f := by
  induction entries with
  | nil => rfl
  | cons e rest ih =>
    obtain ⟨k, v⟩ := e
    by_cases hk : k = name
    · simp [mapValues, get?, hk]
    · simpa [mapValues, get?, hk] using ih

/-- Leaving out entries by their names does not touch the other names. -/
lemma get?_filter (p : String → Bool) (name : String) (entries : Entries α) :
    get? name (entries.filter fun e => p e.1) = if p name then get? name entries else none := by
  induction entries with
  | nil => simp [get?]
  | cons e rest ih =>
    obtain ⟨k, v⟩ := e
    by_cases hk : k = name
    · subst hk
      by_cases hp : p k
      · simp [hp, get?]
      · simpa [List.filter_cons, hp] using ih
    · by_cases hp : p k
      · simpa [List.filter_cons, hp, get?, hk] using ih
      · simpa [List.filter_cons, hp, get?, hk] using ih

lemma names_filter_sublist (p : String × α → Bool) (entries : Entries α) :
    (names (entries.filter p)).Sublist (names entries) :=
  List.filter_sublist.map _

lemma mem_names_filter {p : String → Bool} {name : String} {entries : Entries α} :
    name ∈ names (entries.filter fun e => p e.1) ↔ name ∈ names entries ∧ p name = true := by
  simp only [names, List.mem_map, List.mem_filter]
  constructor
  · rintro ⟨e, ⟨he, hp⟩, rfl⟩
    exact ⟨⟨e, he, rfl⟩, hp⟩
  · rintro ⟨⟨e, he, rfl⟩, hp⟩
    exact ⟨e, ⟨he, hp⟩, rfl⟩

/-- Inserting adds the new entry and keeps some of the others. -/
lemma mem_of_mem_insert {name : String} {value : α} {entries : Entries α} {e : String × α}
    (h : e ∈ insert name value entries) : e ∈ entries ∨ e = (name, value) := by
  induction entries with
  | nil => exact Or.inr (List.mem_singleton.1 h)
  | cons d rest ih =>
    rw [insert] at h
    split at h
    · rename_i hd
      rcases List.mem_cons.1 h with rfl | hrest
      · exact Or.inr (by rw [hd])
      · exact Or.inl (List.mem_cons_of_mem _ hrest)
    · rcases List.mem_cons.1 h with rfl | hrest
      · exact Or.inl (List.mem_cons_self ..)
      · exact (ih hrest).imp_left (List.mem_cons_of_mem _)

/-- Every entry of a map made from a list is in the list. -/
lemma mem_of_mem_ofList {entries : List (String × α)} {e : String × α} (h : e ∈ ofList entries) :
    e ∈ entries := by
  have hfold : ∀ (rest : List (String × α)) (m : Entries α),
      e ∈ rest.foldl (fun m d => insert d.1 d.2 m) m → e ∈ m ∨ e ∈ rest := by
    intro rest
    induction rest with
    | nil => exact fun m he => Or.inl he
    | cons d rest ih =>
      intro m he
      rcases ih _ he with hm | hrest
      · rcases mem_of_mem_insert hm with hin | rfl
        · exact Or.inl hin
        · exact Or.inr (List.mem_cons_self ..)
      · exact Or.inr (List.mem_cons_of_mem _ hrest)
  simpa using hfold entries [] h

/-- Inserting keeps the names and adds at most one. -/
lemma mem_names_insert {name other : String} {value : α} {entries : Entries α} :
    other ∈ names (insert name value entries) ↔ other ∈ names entries ∨ other = name := by
  induction entries with
  | nil => simp [insert, names]
  | cons d rest ih =>
    have hrest : ∀ (k : String) (v : α) (l : Entries α),
        other ∈ names ((k, v) :: l) ↔ other = k ∨ other ∈ names l := by simp [names]
    obtain ⟨k, v⟩ := d
    rw [insert]
    split
    · rename_i hk
      rw [hrest, hrest, hk]
      tauto
    · rw [hrest, hrest, ih]
      tauto

/-- The names of a map stay different when a value is inserted. -/
lemma nodup_names_insert {entries : Entries α} (h : (names entries).Nodup) (name : String)
    (value : α) : (names (insert name value entries)).Nodup := by
  induction entries with
  | nil => simp [insert, names]
  | cons d rest ih =>
    obtain ⟨k, v⟩ := d
    obtain ⟨hk, hrest⟩ := List.nodup_cons.1 h
    rw [insert]
    split
    · exact List.nodup_cons.2 ⟨hk, hrest⟩
    · rename_i hne
      refine List.nodup_cons.2 ⟨fun hmem => ?_, ih hrest⟩
      rcases mem_names_insert.1 hmem with hin | hname
      · exact hk hin
      · exact hne hname

lemma nodup_names_ofList (entries : List (String × α)) : (names (ofList entries)).Nodup := by
  have hfold : ∀ (rest : List (String × α)) (m : Entries α), (names m).Nodup →
      (names (rest.foldl (fun m d => insert d.1 d.2 m) m)).Nodup := by
    intro rest
    induction rest with
    | nil => exact fun m hm => hm
    | cons d rest ih => exact fun m hm => ih _ (nodup_names_insert hm d.1 d.2)
  exact hfold entries [] List.nodup_nil

lemma insert_of_notMem {name : String} {entries : Entries α} (h : name ∉ names entries)
    (value : α) : insert name value entries = entries ++ [(name, value)] := by
  induction entries with
  | nil => rfl
  | cons e rest ih =>
    obtain ⟨k, v⟩ := e
    simp only [names, List.map_cons, List.mem_cons, not_or] at h
    rw [insert, if_neg (Ne.symm h.1), ih h.2, List.cons_append]

/-- Entries under different names are a map as they are. -/
lemma ofList_of_nodup {entries : List (String × α)} (h : (names entries).Nodup) :
    ofList entries = entries := by
  have hfold : ∀ (rest : List (String × α)) (m : Entries α), (names (m ++ rest)).Nodup →
      rest.foldl (fun m d => insert d.1 d.2 m) m = m ++ rest := by
    intro rest
    induction rest with
    | nil => exact fun m _ => (List.append_nil m).symm
    | cons d rest ih =>
      intro m hm
      have hd : d.1 ∉ names m := by
        simp only [names, List.map_append, List.map_cons] at hm
        exact fun hmem => (List.nodup_append.1 hm).2.2 _ hmem _ (List.mem_cons_self ..) rfl
      rw [List.foldl_cons, insert_of_notMem hd, ih _ (by simpa using hm), List.append_assoc,
        List.singleton_append]
  exact hfold entries [] h

/-- Of several values under one name a map made from a list has the last one. -/
lemma get?_ofList (name : String) (entries : List (String × α)) :
    get? name (ofList entries) = get? name entries.reverse := by
  induction entries using List.reverseRecOn with
  | nil => rfl
  | append_singleton entries e ih =>
    obtain ⟨k, v⟩ := e
    have hlast : ofList (entries ++ [(k, v)]) = insert k v (ofList entries) := List.foldl_concat ..
    rw [hlast, List.reverse_append, List.reverse_singleton, List.singleton_append, get?]
    split
    · rename_i hk
      rw [hk, get?_insert_self]
    · rename_i hk
      rw [get?_insert_of_ne (Ne.symm hk), ih]

lemma mem_names_ofList {name : String} {entries : List (String × α)} :
    name ∈ names (ofList entries) ↔ name ∈ names entries := by
  rw [← not_iff_not, ← get?_eq_none_iff, get?_ofList, get?_eq_none_iff, names, List.map_reverse,
    List.mem_reverse, names]

lemma get?_filterMap_cons {γ : Type} {f : γ → Option (String × α)} {c : γ} {name : String}
    (h : ∀ w, f c ≠ some (name, w)) (l : List γ) :
    get? name ((c :: l).filterMap f) = get? name (l.filterMap f) := by
  rw [List.filterMap_cons]
  cases hc : f c with
  | none => rfl
  | some e =>
    obtain ⟨k, v⟩ := e
    have hk : k ≠ name := fun hk => h v (hk ▸ hc)
    dsimp only
    rw [get?, if_neg hk]

/-- The value under a name in a list is the first one. -/
lemma get?_filterMap_eq_some_iff {γ : Type} {f : γ → Option (String × α)} {l : List γ}
    {name : String} {value : α} :
    get? name (l.filterMap f) = some value ↔ ∃ earlier a later, l = earlier ++ a :: later ∧
      f a = some (name, value) ∧ ∀ b ∈ earlier, ∀ w, f b ≠ some (name, w) := by
  induction l with
  | nil => simp [get?]
  | cons c rest ih =>
    by_cases hc : ∃ w, f c = some (name, w)
    · obtain ⟨w, hw⟩ := hc
      rw [List.filterMap_cons, hw]
      dsimp only
      rw [get?, if_pos rfl]
      constructor
      · rintro ⟨⟩
        exact ⟨[], c, rest, rfl, hw, List.forall_mem_nil _⟩
      · rintro ⟨_ | ⟨d, earlier⟩, a, later, hl, ha, hearlier⟩
        · obtain ⟨rfl, rfl⟩ := List.cons.inj hl
          exact congrArg (Option.map Prod.snd) (hw.symm.trans ha)
        · obtain ⟨rfl, rfl⟩ := List.cons.inj hl
          exact absurd hw (hearlier c (List.mem_cons_self ..) w)
    · rw [not_exists] at hc
      rw [get?_filterMap_cons hc, ih]
      constructor
      · rintro ⟨earlier, a, later, rfl, ha, hearlier⟩
        exact ⟨c :: earlier, a, later, rfl, ha, List.forall_mem_cons.2 ⟨hc, hearlier⟩⟩
      · rintro ⟨_ | ⟨d, earlier⟩, a, later, hl, ha, hearlier⟩
        · obtain ⟨rfl, rfl⟩ := List.cons.inj hl
          exact absurd ha (hc value)
        · obtain ⟨rfl, rfl⟩ := List.cons.inj hl
          exact ⟨earlier, a, later, rfl, ha, (List.forall_mem_cons.1 hearlier).2⟩

/-- The entries of a map made from a list are those that come last under their names. -/
lemma mem_ofList_filterMap_iff {γ : Type} {f : γ → Option (String × α)} {l : List γ}
    {name : String} {value : α} :
    (name, value) ∈ ofList (l.filterMap f) ↔ ∃ earlier a later, l = earlier ++ a :: later ∧
      f a = some (name, value) ∧ ∀ b ∈ later, ∀ w, f b ≠ some (name, w) := by
  have hget : (name, value) ∈ ofList (l.filterMap f) ↔
      get? name (l.reverse.filterMap f) = some value := by
    rw [List.filterMap_reverse, ← get?_ofList]
    exact ⟨get?_of_mem (nodup_names_ofList _), mem_of_get?⟩
  rw [hget, get?_filterMap_eq_some_iff]
  constructor
  · rintro ⟨later, a, earlier, hl, ha, hlater⟩
    refine ⟨earlier.reverse, a, later.reverse, ?_, ha, ?_⟩
    · rw [← List.reverse_reverse l, hl]
      simp
    · exact fun b hb => hlater b (List.mem_reverse.1 hb)
  · rintro ⟨earlier, a, later, rfl, ha, hlater⟩
    refine ⟨later.reverse, a, earlier.reverse, by simp, ha, ?_⟩
    exact fun b hb => hlater b (List.mem_reverse.1 hb)

end ValueSchema.Entries
