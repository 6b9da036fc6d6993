/-
# Structural equality is an equivalence

Structural equality looks properties up by their names, so it is reflexive and symmetric on schemas
whose objects have different names for different properties.  It is transitive on all schemas.
Literals are compared by sameness, so that those that are not a number are equal to themselves.
-/
import Mathlib.Data.List.Perm.Subperm
import ValueSchema.Proofs.Literal.Sameness
import ValueSchema.Proofs.Schema.Vocabulary

namespace ValueSchema

namespace Schema

/-! ## Reflexivity -/

lemma equalAll_self {items : List Schema} (h : ∀ s ∈ items, equal s s = true) :
    equalAll items items = true := by
  induction items with
  | nil => rfl
  | cons s rest ih =>
    rw [equalAll, h s (List.mem_cons_self ..), Bool.true_and]
    exact ih fun t ht => h t (List.mem_cons_of_mem _ ht)

lemma equalNamed_self {items : List (String × Schema)} (h : ∀ e ∈ items, equal e.2 e.2 = true) :
    equalNamed items items = true := by
  induction items with
  | nil => rfl
  | cons e rest ih =>
    rw [equalNamed, beq_self_eq_true, Bool.true_and, h e (List.mem_cons_self ..), Bool.true_and]
    exact ih fun d hd => h d (List.mem_cons_of_mem _ hd)

lemma equalPairs_self {items : List (Schema × Schema)}
    (h : ∀ e ∈ items, equal e.1 e.1 = true ∧ equal e.2 e.2 = true) :
    equalPairs items items = true := by
  induction items with
  | nil => rfl
  | cons e rest ih =>
    obtain ⟨hkey, hvalue⟩ := h e (List.mem_cons_self ..)
    rw [equalPairs, hkey, hvalue, Bool.and_self, Bool.true_and]
    exact ih fun d hd => h d (List.mem_cons_of_mem _ hd)

lemma equalIn_of_get? {items others : List (String × Schema)}
    (h : ∀ e ∈ items, ∃ t, Entries.get? e.1 others = some t ∧ equal e.2 t = true) :
    equalIn items others = true := by
  induction items with
  | nil => rfl
  | cons e rest ih =>
    obtain ⟨t, hget, hequal⟩ := h e (List.mem_cons_self ..)
    rw [equalIn, hget, Bool.and_eq_true]
    exact ⟨hequal, ih fun d hd => h d (List.mem_cons_of_mem _ hd)⟩

variable {v : Vocabulary} {s : Schema}

/-- The induction goes through the children; only at an object the names matter. -/
theorem equal_self (h : s.Within v) : equal s s = true := by
  induction s using induction with
  | step s ih =>
    have hchild : ∀ t ∈ s.children, equal t t = true := fun t ht => ih t ht (h.of_mem_children ht)
    cases s with
    | primitive | error => simp [equal]
    | literal value => exact value.same_self
    | union items | intersection items | template items => exact equalAll_self hchild
    | tuple items flags | reference name items id =>
      rw [equal, beq_self_eq_true, Bool.true_and]
      exact equalAll_self hchild
    | array item => exact hchild item (by simp [children])
    | object properties indexKeys =>
      obtain ⟨hnames, -, -⟩ := within_object.1 h
      rw [equal, beq_self_eq_true, Bool.true_and, Bool.and_eq_true]
      constructor
      · refine equalIn_of_get? fun e he => ⟨e.2, Entries.get?_of_mem hnames he, hchild _ ?_⟩
        exact List.mem_append_left _ (List.mem_map_of_mem he)
      · refine equalPairs_self fun e he => ⟨hchild _ ?_, hchild _ ?_⟩
        all_goals
          exact List.mem_append_right _ (List.mem_flatMap.2 ⟨e, he, by simp⟩)
    | function parameters result =>
      rw [equal, Bool.and_eq_true]
      constructor
      · exact equalNamed_self fun e he => hchild _ (List.mem_append_left _ (List.mem_map_of_mem he))
      · exact hchild _ (List.mem_append_right _ (List.mem_singleton_self _))
    | binary op left right =>
      rw [equal, beq_self_eq_true, Bool.true_and, Bool.and_eq_true]
      exact ⟨hchild _ (by simp [children]), hchild _ (by simp [children])⟩
    | keys subject o => exact hchild subject (by simp [children])
    | access target key o =>
      rw [equal, Bool.and_eq_true]
      exact ⟨hchild _ (by simp [children]), hchild _ (by simp [children])⟩

lemma sameMember_self (h : s.Within v) : sameMember s s = true := by
  rw [sameMember, equal_self h, Bool.true_and, beq_self_eq_true]

/-! ## Symmetry -/

/-- An equal schema may change sides, for all schemas of one list and all of another one. -/
def Swaps (items others : List Schema) : Prop :=
  ∀ s ∈ items, ∀ t ∈ others, equal s t = true → equal t s = true

lemma Swaps.mono {items others some more : List Schema} (h : Swaps items others)
    (hitems : some ⊆ items) (hothers : more ⊆ others) : Swaps some more :=
  fun s hs t ht => h s (hitems hs) t (hothers ht)

lemma equalAll_symm {items others : List Schema} (hswaps : Swaps items others)
    (h : equalAll items others = true) : equalAll others items = true := by
  induction items generalizing others with
  | nil =>
    cases others with
    | nil => rfl
    | cons => cases h
  | cons s rest ih =>
    cases others with
    | nil => cases h
    | cons t more =>
      rw [equalAll, Bool.and_eq_true] at h ⊢
      exact ⟨hswaps s (by simp) t (by simp) h.1, ih (hswaps.mono (by simp) (by simp)) h.2⟩

lemma equalNamed_symm {items others : List (String × Schema)}
    (hswaps : Swaps (items.map Prod.snd) (others.map Prod.snd))
    (h : equalNamed items others = true) : equalNamed others items = true := by
  induction items generalizing others with
  | nil =>
    cases others with
    | nil => rfl
    | cons => cases h
  | cons s rest ih =>
    cases others with
    | nil => cases h
    | cons t more =>
      rw [equalNamed, Bool.and_eq_true, Bool.and_eq_true] at h ⊢
      obtain ⟨⟨hname, hequal⟩, hrest⟩ := h
      exact ⟨⟨BEq.symm hname, hswaps _ (by simp) _ (by simp) hequal⟩,
        ih (hswaps.mono (by simp) (by simp)) hrest⟩

lemma equalPairs_symm {items others : List (Schema × Schema)}
    (hswaps : Swaps (items.flatMap fun e => [e.1, e.2]) (others.flatMap fun e => [e.1, e.2]))
    (h : equalPairs items others = true) : equalPairs others items = true := by
  induction items generalizing others with
  | nil =>
    cases others with
    | nil => rfl
    | cons => cases h
  | cons s rest ih =>
    cases others with
    | nil => cases h
    | cons t more =>
      rw [equalPairs, Bool.and_eq_true, Bool.and_eq_true] at h ⊢
      obtain ⟨⟨hkey, hvalue⟩, hrest⟩ := h
      refine ⟨⟨hswaps _ (by simp) _ (by simp) hkey, hswaps _ (by simp) _ (by simp) hvalue⟩,
        ih (hswaps.mono ?_ ?_) hrest⟩
      all_goals exact List.subset_append_right _ _

lemma get?_of_equalIn {items others : List (String × Schema)} (h : equalIn items others = true)
    {e : String × Schema} (he : e ∈ items) :
    ∃ t, Entries.get? e.1 others = some t ∧ equal e.2 t = true := by
  induction items with
  | nil => cases he
  | cons d rest ih =>
    rw [equalIn, Bool.and_eq_true] at h
    rcases List.mem_cons.1 he with rfl | he
    · split at h
      · exact ⟨_, ‹_›, h.1⟩
      · cases h.1
    · exact ih h.2 he

/-- If all names of one object are names of another one, and both have as many, then there are no
others. -/
lemma equalIn_symm {items others : List (String × Schema)}
    (hswaps : Swaps (items.map Prod.snd) (others.map Prod.snd))
    (hitems : (Entries.names items).Nodup) (hothers : (Entries.names others).Nodup)
    (hlength : items.length = others.length) (h : equalIn items others = true) :
    equalIn others items = true := by
  have hsub : Entries.names items ⊆ Entries.names others := by
    intro name hname
    obtain ⟨e, he, rfl⟩ := List.mem_map.1 hname
    obtain ⟨t, hget, -⟩ := get?_of_equalIn h he
    exact Entries.mem_names_of_mem (e := (e.1, t)) (Entries.mem_of_get? hget)
  have hsame : (Entries.names items).Perm (Entries.names others) := by
    refine (List.subperm_of_subset hitems hsub).perm_of_length_le ?_
    simp [Entries.names, hlength]
  refine equalIn_of_get? fun d hd => ?_
  obtain ⟨e, he, hname⟩ := List.mem_map.1 (hsame.mem_iff.2 (Entries.mem_names_of_mem hd))
  obtain ⟨t, hget, hequal⟩ := get?_of_equalIn h he
  rw [hname, Entries.get?_of_mem hothers hd] at hget
  obtain rfl := Option.some.inj hget
  refine ⟨e.2, ?_, hswaps _ (List.mem_map_of_mem he) _ (List.mem_map_of_mem hd) hequal⟩
  rw [← hname]
  exact Entries.get?_of_mem hitems he

/-- Equality is symmetric.  The induction goes through the children of the first schema; at an object
the names matter. -/
theorem equal_symm {v w : Vocabulary} {s t : Schema} (hs : s.Within v) (ht : t.Within w)
    (h : equal s t = true) : equal t s = true := by
  induction s using induction generalizing t with
  | step s ih =>
    have hswaps : Swaps s.children t.children := fun a ha b hb =>
      ih a ha (hs.of_mem_children ha) (ht.of_mem_children hb)
    cases s <;> cases t <;> try cases h
    case primitive.primitive | error.error => exact BEq.symm h
    case literal.literal => exact Literal.same_symm h
    case union.union | intersection.intersection | template.template =>
      exact equalAll_symm hswaps h
    case tuple.tuple | reference.reference =>
      rw [equal, Bool.and_eq_true] at h ⊢
      exact ⟨BEq.symm h.1, equalAll_symm hswaps h.2⟩
    case array.array a b | keys.keys a _ b _ =>
      exact hswaps a (by simp [children]) b (by simp [children]) h
    case object.object properties indexKeys others indexKeys' =>
      rw [equal, Bool.and_eq_true, Bool.and_eq_true, beq_iff_eq] at h ⊢
      obtain ⟨⟨hlength, hin⟩, hpairs⟩ := h
      obtain ⟨hnames, -, -⟩ := within_object.1 hs
      obtain ⟨hnames', -, -⟩ := within_object.1 ht
      refine ⟨⟨hlength.symm, equalIn_symm (hswaps.mono ?_ ?_) hnames hnames' hlength hin⟩,
        equalPairs_symm (hswaps.mono ?_ ?_) hpairs⟩
      · exact List.subset_append_left _ _
      · exact List.subset_append_left _ _
      · exact List.subset_append_right _ _
      · exact List.subset_append_right _ _
    case function.function =>
      rw [equal, Bool.and_eq_true] at h ⊢
      refine ⟨equalNamed_symm (hswaps.mono ?_ ?_) h.1, hswaps _ ?_ _ ?_ h.2⟩
      · exact List.subset_append_left _ _
      · exact List.subset_append_left _ _
      · exact List.mem_append_right _ (List.mem_singleton_self _)
      · exact List.mem_append_right _ (List.mem_singleton_self _)
    case binary.binary =>
      rw [equal, Bool.and_eq_true, Bool.and_eq_true] at h ⊢
      obtain ⟨⟨hop, hleft⟩, hright⟩ := h
      exact ⟨⟨BEq.symm hop, hswaps _ (by simp [children]) _ (by simp [children]) hleft⟩,
        hswaps _ (by simp [children]) _ (by simp [children]) hright⟩
    case access.access =>
      rw [equal, Bool.and_eq_true] at h ⊢
      exact ⟨hswaps _ (by simp [children]) _ (by simp [children]) h.1,
        hswaps _ (by simp [children]) _ (by simp [children]) h.2⟩

/-! ## Transitivity -/

/-- Equality leads on from each of several schemas. -/
def Chains (items : List Schema) : Prop :=
  ∀ s ∈ items, ∀ t u, equal s t = true → equal t u = true → equal s u = true

lemma Chains.mono {items some : List Schema} (h : Chains items) (hitems : some ⊆ items) :
    Chains some :=
  fun s hs => h s (hitems hs)

lemma equalAll_trans {items others third : List Schema} (hchains : Chains items)
    (h : equalAll items others = true) (h' : equalAll others third = true) :
    equalAll items third = true := by
  induction items generalizing others third with
  | nil =>
    cases others with
    | nil => exact h'
    | cons => cases h
  | cons s rest ih =>
    cases others with
    | nil => cases h
    | cons t more =>
      cases third with
      | nil => cases h'
      | cons u last =>
        rw [equalAll, Bool.and_eq_true] at h h' ⊢
        exact ⟨hchains s (by simp) t u h.1 h'.1, ih (hchains.mono (by simp)) h.2 h'.2⟩

lemma equalNamed_trans {items others third : List (String × Schema)}
    (hchains : Chains (items.map Prod.snd)) (h : equalNamed items others = true)
    (h' : equalNamed others third = true) : equalNamed items third = true := by
  induction items generalizing others third with
  | nil =>
    cases others with
    | nil => exact h'
    | cons => cases h
  | cons s rest ih =>
    cases others with
    | nil => cases h
    | cons t more =>
      cases third with
      | nil => cases h'
      | cons u last =>
        rw [equalNamed, Bool.and_eq_true, Bool.and_eq_true, beq_iff_eq] at h h' ⊢
        obtain ⟨⟨hname, hequal⟩, hrest⟩ := h
        obtain ⟨⟨hname', hequal'⟩, hrest'⟩ := h'
        exact ⟨⟨hname.trans hname', hchains _ (by simp) _ _ hequal hequal'⟩,
          ih (hchains.mono (by simp)) hrest hrest'⟩

lemma equalPairs_trans {items others third : List (Schema × Schema)}
    (hchains : Chains (items.flatMap fun e => [e.1, e.2])) (h : equalPairs items others = true)
    (h' : equalPairs others third = true) : equalPairs items third = true := by
  induction items generalizing others third with
  | nil =>
    cases others with
    | nil => exact h'
    | cons => cases h
  | cons s rest ih =>
    cases others with
    | nil => cases h
    | cons t more =>
      cases third with
      | nil => cases h'
      | cons u last =>
        rw [equalPairs, Bool.and_eq_true, Bool.and_eq_true] at h h' ⊢
        obtain ⟨⟨hkey, hvalue⟩, hrest⟩ := h
        obtain ⟨⟨hkey', hvalue'⟩, hrest'⟩ := h'
        exact ⟨⟨hchains _ (by simp) _ _ hkey hkey', hchains _ (by simp) _ _ hvalue hvalue'⟩,
          ih (hchains.mono (List.subset_append_right _ _)) hrest hrest'⟩

lemma equalIn_trans {items others third : List (String × Schema)}
    (hchains : Chains (items.map Prod.snd)) (h : equalIn items others = true)
    (h' : equalIn others third = true) : equalIn items third = true := by
  refine equalIn_of_get? fun e he => ?_
  obtain ⟨t, hget, hequal⟩ := get?_of_equalIn h he
  obtain ⟨u, hget', hequal'⟩ := get?_of_equalIn h' (Entries.mem_of_get? hget)
  exact ⟨u, hget', hchains _ (List.mem_map_of_mem he) _ _ hequal hequal'⟩

/-- Equality is transitive.  The induction goes through the children of the first schema. -/
theorem equal_trans {s t u : Schema} (h : equal s t = true) (h' : equal t u = true) :
    equal s u = true := by
  induction s using induction generalizing t u with
  | step s ih =>
    have hchains : Chains s.children := fun a ha b c => ih a ha
    cases s <;> cases t <;> try cases h
    all_goals cases u <;> try cases h'
    case primitive.primitive.primitive | error.error.error =>
      exact BEq.trans h h'
    case literal.literal.literal => exact Literal.same_trans h h'
    case union.union.union | intersection.intersection.intersection | template.template.template =>
      exact equalAll_trans hchains h h'
    case tuple.tuple.tuple | reference.reference.reference =>
      rw [equal, Bool.and_eq_true] at h h' ⊢
      exact ⟨BEq.trans h.1 h'.1, equalAll_trans hchains h.2 h'.2⟩
    case array.array.array a _ _ | keys.keys.keys a _ _ _ _ _ =>
      exact hchains a (by simp [children]) _ _ h h'
    case object.object.object =>
      rw [equal, Bool.and_eq_true, Bool.and_eq_true, beq_iff_eq] at h h' ⊢
      obtain ⟨⟨hlength, hin⟩, hpairs⟩ := h
      obtain ⟨⟨hlength', hin'⟩, hpairs'⟩ := h'
      exact ⟨⟨hlength.trans hlength',
          equalIn_trans (hchains.mono (List.subset_append_left _ _)) hin hin'⟩,
        equalPairs_trans (hchains.mono (List.subset_append_right _ _)) hpairs hpairs'⟩
    case function.function.function =>
      rw [equal, Bool.and_eq_true] at h h' ⊢
      refine ⟨equalNamed_trans (hchains.mono (List.subset_append_left _ _)) h.1 h'.1,
        hchains _ ?_ _ _ h.2 h'.2⟩
      exact List.mem_append_right _ (List.mem_singleton_self _)
    case binary.binary.binary =>
      rw [equal, Bool.and_eq_true, Bool.and_eq_true] at h h' ⊢
      obtain ⟨⟨hop, hleft⟩, hright⟩ := h
      obtain ⟨⟨hop', hleft'⟩, hright'⟩ := h'
      exact ⟨⟨BEq.trans hop hop', hchains _ (by simp [children]) _ _ hleft hleft'⟩,
        hchains _ (by simp [children]) _ _ hright hright'⟩
    case access.access.access =>
      rw [equal, Bool.and_eq_true] at h h' ⊢
      exact ⟨hchains _ (by simp [children]) _ _ h.1 h'.1,
        hchains _ (by simp [children]) _ _ h.2 h'.2⟩

end Schema

end ValueSchema
