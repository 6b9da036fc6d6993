/-
# Runs of computations

A computation takes a state to an outcome and a state.  How a run of a composed computation comes
about from runs of its parts is said here once, for every kind of state; the rest of the theory does
not open the monad any more.
-/
import Mathlib.Data.List.Forall2
import Mathlib.Tactic.Common
import ValueSchema.Evaluation.Context

namespace ValueSchema.Run

variable {σ α β : Type} {m : ExceptT Stop (StateM σ) α} {f : α → ExceptT Stop (StateM σ) β}
  {s t u : σ}

lemma bind_apply (m : ExceptT Stop (StateM σ) α) (f : α → ExceptT Stop (StateM σ) β) (s : σ) :
    (m >>= f) s =
      match m s with
      | (.ok a, t) => f a t
      | (.error stop, t) => (.error stop, t) := by
  show (ExceptT.bindCont f (m s).1) (m s).2 = _
  rcases m s with ⟨_ | a, t⟩ <;> rfl

lemma tryCatch_apply (m : ExceptT Stop (StateM σ) α) (handle : Stop → ExceptT Stop (StateM σ) α)
    (s : σ) :
    tryCatch m handle s =
      match m s with
      | (.ok a, t) => (.ok a, t)
      | (.error stop, t) => handle stop t := by
  have hbind : ∀ g : Except Stop α → StateM σ (Except Stop α),
      Bind.bind (show StateM σ (Except Stop α) from m) g s = g (m s).1 (m s).2 := fun _ => rfl
  show ExceptT.tryCatch m handle s = _
  rw [ExceptT.tryCatch, ExceptT.mk, hbind]
  rcases m s with ⟨_ | a, t⟩ <;> rfl

lemma set_bind (t : σ) (f : PUnit → ExceptT Stop (StateM σ) β) (s : σ) :
    ((set t : ExceptT Stop (StateM σ) PUnit) >>= f) s = f ⟨⟩ t := rfl

lemma get_bind (f : σ → ExceptT Stop (StateM σ) β) (s : σ) :
    ((get : ExceptT Stop (StateM σ) σ) >>= f) s = f s s := rfl

lemma bind_of_ok {a : α} (h : m s = (.ok a, t)) : (m >>= f) s = f a t := by
  rw [bind_apply, h]

lemma bind_of_error {stop : Stop} (h : m s = (.error stop, t)) :
    (m >>= f) s = (.error stop, t) := by
  rw [bind_apply, h]

/-- A composed computation succeeds if both parts do, one after the other. -/
lemma bind_eq_ok {b : β} :
    (m >>= f) s = (.ok b, u) ↔ ∃ a t, m s = (.ok a, t) ∧ f a t = (.ok b, u) := by
  constructor
  · intro h
    rcases hm : m s with ⟨stop | a, t⟩
    · rw [bind_of_error hm] at h
      cases h
    · rw [bind_of_ok hm] at h
      exact ⟨a, t, rfl, h⟩
  · rintro ⟨a, t, hm, hf⟩
    rw [bind_of_ok hm, hf]

/-- A composed computation stops if one of its parts does. -/
lemma bind_eq_error {stop : Stop} (h : (m >>= f) s = (.error stop, u)) :
    m s = (.error stop, u) ∨ ∃ a t, m s = (.ok a, t) ∧ f a t = (.error stop, u) := by
  rcases hm : m s with ⟨stop' | a, t⟩
  · rw [bind_of_error hm] at h
    cases h
    exact Or.inl rfl
  · rw [bind_of_ok hm] at h
    exact Or.inr ⟨a, t, rfl, h⟩

/-- Whether a computation succeeds, and its result and the state after it pass a test. -/
def passes (m : ExceptT Stop (StateM σ) α) (s : σ) (test : α → σ → Bool) : Bool :=
  match m s with
  | (.ok a, t) => test a t
  | (.error _, _) => false

lemma exists_of_passes {test : α → σ → Bool} (h : passes m s test = true) :
    ∃ a t, m s = (.ok a, t) ∧ test a t = true := by
  rw [passes] at h
  rcases hm : m s with ⟨stop | a, t⟩
  · rw [hm] at h
    cases h
  · rw [hm] at h
    exact ⟨a, t, rfl, h⟩

/-! ## Lists

Runs over lists, in which each step keeps something of the state: `I` holds between the steps, and
`R` leads from the state before a step to the state after it. -/

section

variable {I : σ → Prop} {R : σ → σ → Prop} {items : List α}

lemma mapM_congr {f' : α → ExceptT Stop (StateM σ) β} (h : ∀ a ∈ items, f a = f' a) :
    items.mapM f = items.mapM f' := by
  induction items with
  | nil => rfl
  | cons a rest ih =>
    obtain ⟨ha, hrest⟩ := List.forall_mem_cons.1 h
    rw [List.mapM_cons, List.mapM_cons, ha, ih hrest]

lemma exists_result {P : α → β → Prop} {results : List β} (h : List.Forall₂ P items results) {a : α}
    (ha : a ∈ items) : ∃ b ∈ results, P a b := by
  induction h with
  | nil => cases ha
  | cons hab _ ih =>
    rcases List.mem_cons.1 ha with rfl | hrest
    · exact ⟨_, List.mem_cons_self .., hab⟩
    · obtain ⟨b, hb, hP⟩ := ih hrest
      exact ⟨b, List.mem_cons_of_mem _ hb, hP⟩

lemma exists_item {P : α → β → Prop} {results : List β} (h : List.Forall₂ P items results) {b : β}
    (hb : b ∈ results) : ∃ a ∈ items, P a b := by
  induction h with
  | nil => cases hb
  | cons hab _ ih =>
    rcases List.mem_cons.1 hb with rfl | hrest
    · exact ⟨_, List.mem_cons_self .., hab⟩
    · obtain ⟨a, ha, hP⟩ := ih hrest
      exact ⟨a, List.mem_cons_of_mem _ ha, hP⟩

lemma exists_result_at {P : α → β → Prop} {results : List β} (h : List.Forall₂ P items results)
    {i : Nat} {a : α} (ha : items[i]? = some a) : ∃ b, results[i]? = some b ∧ P a b := by
  induction h generalizing i with
  | nil => simp at ha
  | cons hab _ ih =>
    cases i with
    | zero =>
      obtain rfl : _ = a := by simpa using ha
      exact ⟨_, rfl, hab⟩
    | succ i => exact ih (by simpa using ha)

lemma map_eq_of_forall₂ {γ : Type} {g : α → γ} {g' : β → γ} {results : List β}
    (h : List.Forall₂ (fun a b => g' b = g a) items results) : results.map g' = items.map g := by
  induction h with
  | nil => rfl
  | cons hab _ ih => rw [List.map_cons, List.map_cons, hab, ih]

/-- Each result belongs to an item, and was found in a state on the way. -/
lemma forall₂_of_mapM (hrefl : ∀ s, R s s) (htrans : ∀ {s t u}, R s t → R t u → R s u)
    (hstep : ∀ a ∈ items, ∀ u b w, I u → f a u = (.ok b, w) → I w ∧ R u w) (hs : I s)
    {results : List β} (h : items.mapM f s = (.ok results, t)) :
    I t ∧ R s t ∧ List.Forall₂
      (fun a b => ∃ u w, I u ∧ R s u ∧ f a u = (.ok b, w) ∧ R w t) items results := by
  induction items generalizing s results with
  | nil =>
    cases h
    exact ⟨hs, hrefl _, .nil⟩
  | cons a rest ih =>
    rw [List.mapM_cons] at h
    obtain ⟨b, u, hb, h⟩ := bind_eq_ok.1 h
    obtain ⟨more, w, hmore, h⟩ := bind_eq_ok.1 h
    cases h
    obtain ⟨hu, hsu⟩ := hstep a (List.mem_cons_self ..) s b u hs hb
    obtain ⟨ht, hut, hall⟩ :=
      ih (fun d hd => hstep d (List.mem_cons_of_mem _ hd)) hu hmore
    refine ⟨ht, htrans hsu hut, .cons ⟨s, u, hs, hrefl s, hb, hut⟩ ?_⟩
    refine hall.imp fun d b' hd => ?_
    obtain ⟨v, w, hv, huv, hrun, hwt⟩ := hd
    exact ⟨v, w, hv, htrans hsu huv, hrun, hwt⟩

end

/-- Every item of a list that is folded has had its turn. -/
lemma exists_of_foldlM {I : σ → β → Prop} {R : σ × β → σ × β → Prop} (hrefl : ∀ x, R x x)
    (htrans : ∀ {x y z}, R x y → R y z → R x z) {items : List α}
    {g : β → α → ExceptT Stop (StateM σ) β}
    (hstep : ∀ a ∈ items, ∀ u b b' w, I u b → g b a u = (.ok b', w) → I w b' ∧ R (u, b) (w, b'))
    {init final : β} (hs : I s init) (h : items.foldlM g init s = (.ok final, t)) :
    I t final ∧ R (s, init) (t, final) ∧ ∀ a ∈ items, ∃ u b b' w, I u b ∧ R (s, init) (u, b) ∧
      g b a u = (.ok b', w) ∧ R (w, b') (t, final) := by
  induction items generalizing s init with
  | nil =>
    cases h
    exact ⟨hs, hrefl _, by simp⟩
  | cons a rest ih =>
    rw [List.foldlM_cons] at h
    obtain ⟨b, u, hb, h⟩ := bind_eq_ok.1 h
    obtain ⟨hu, hsu⟩ := hstep a (List.mem_cons_self ..) s init b u hs hb
    obtain ⟨ht, hut, hall⟩ :=
      ih (fun d hd => hstep d (List.mem_cons_of_mem _ hd)) hu h
    refine ⟨ht, htrans hsu hut, List.forall_mem_cons.2 ⟨?_, fun d hd => ?_⟩⟩
    · exact ⟨s, init, b, u, hs, hrefl _, hb, hut⟩
    · obtain ⟨v, c, c', w, hv, huv, hrun, hwt⟩ := hall d hd
      exact ⟨v, c, c', w, hv, htrans hsu huv, hrun, hwt⟩

end ValueSchema.Run
