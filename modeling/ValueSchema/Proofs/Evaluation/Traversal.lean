/-
# Going through schemas and definitions

Reading a property and spreading are alike: each goes through a schema as its unions and
intersections are built, and from a reference on into the body of its definition.  A `Traversal` is
such a way of going through schemas, without the references, and `Traversal.within` is what becomes
of it if a number of references may be followed.

In a complete session, in which every definition is ready, references are only looked up.  What a
traversal answers then depends on the definitions alone: there is an answer if no circle of
definitions is met, there is none if the question insists on a circle, and what has no answer
although each definition was followed once for each kind of question never has one.
-/
import Mathlib.Data.Finset.Prod
import Mathlib.Data.Fintype.Card
import ValueSchema.Proofs.Definition.Circle
import ValueSchema.Proofs.Evaluation.Completion
import ValueSchema.Proofs.Evaluation.Session

namespace ValueSchema

/-! ## Complete sessions -/

namespace Session

variable {options : Options} {s t : Session} {host : Host} {name id : String}

/-- A session that knows what its schemas refer to, and in which every definition is ready. -/
structure Complete (options : Options) (s : Session) : Prop where
  closed : s.Closed options
  ready : ∀ id ∈ Entries.names s.definitions.entries, ∃ body, s.definitions.ready? id = some body

/-- What a reference stands for in a complete session: the body of its definition, or anything if it
names a type of the library. -/
def meaning (s : Session) (id : String) : Schema := (s.definitions.ready? id).getD .unknown

/-- In a complete session references are only looked up. -/
lemma Complete.resolve_eq (hs : s.Complete options) (hknown : s.Known name id)
    (arguments : List Schema) (e : Evaluator) (b : Branch) :
    Evaluation.resolve e b (.reference name arguments id) s = (.ok (s.meaning id), s) := by
  have hunfold : Evaluation.resolve e b (.reference name arguments id) s =
      (if Entries.contains id s.definitions.entries then do
        return (← Evaluation.materialize (Evaluation.convertBody e b) id).getD
          (.reference name arguments id)
      else if s.options.isWellKnown name then return .unknown
      else Eval.fail (.definitionNotFound id) : Eval Schema) s := rfl
  rw [hunfold, meaning]
  by_cases hmem : id ∈ Entries.names s.definitions.entries
  · obtain ⟨body, hbody⟩ := hs.ready id hmem
    have hnone : s.definitions.begin? id = none := by
      obtain ⟨d, hd, hstate⟩ := Registry.ready?_eq_some_iff.1 hbody
      rw [Registry.begin?, hd, Option.map_some, hstate]
    have hrun : Evaluation.materialize (Evaluation.convertBody e b) id s =
        (.ok (some body), s) := by
      rw [Evaluation.materialize_apply, hnone, hbody]
    rw [if_pos (Entries.contains_eq_true_iff.2 hmem), Run.bind_of_ok hrun, hbody]
    rfl
  · have hwell : s.options.isWellKnown name = true := hknown.resolve_right hmem
    have hnone : s.definitions.ready? id = none := by
      rw [Registry.ready?, Registry.get?, Entries.get?_eq_none_iff.2 hmem]
      rfl
    rw [if_neg (by simpa using hmem), if_pos hwell, hnone]
    rfl

/-- A body is about what the session knows. -/
lemma Complete.within_meaning (hs : s.Complete options) (id : String) :
    (s.meaning id).Within (.ofReferences s.Known) := by
  rw [meaning]
  cases hbody : s.definitions.ready? id with
  | none => exact Schema.within_unknown
  | some body => exact hs.closed.ready id body hbody

/-- A body shows only references that the session knows. -/
lemma Complete.known_of_mem_shown (hs : s.Complete options) {r : Schema}
    (hr : r ∈ (s.meaning id).shown) :
    ∃ name arguments other, r = .reference name arguments other ∧ s.Known name other := by
  obtain ⟨name, arguments, other, rfl⟩ := Schema.eq_reference_of_mem_shown hr
  have hwithin := Schema.within_of_mem_shown (hs.within_meaning id) hr
  exact ⟨name, arguments, other, rfl, (Schema.within_iff.1 hwithin).1⟩

/-- A body that shows a reference is that of a definition, which leads on to the reference. -/
lemma leadsOn_of_mem_meaning {shown : Schema → List Schema} (hshown : shown .unknown = [])
    {other : String} {arguments : List Schema} (hbody : (s.meaning id).reference? = none)
    (hmem : Schema.reference name arguments other ∈ shown (s.meaning id)) :
    s.definitions.LeadsOn shown id other := by
  rw [meaning] at hbody hmem
  cases hready : s.definitions.ready? id with
  | none =>
    rw [hready, Option.getD_none, hshown] at hmem
    cases hmem
  | some body =>
    rw [hready, Option.getD_some] at hbody hmem
    exact ⟨body, name, arguments, hready, hbody, hmem⟩

end Session

namespace Context

variable {c : Context} {host : Host} {s t : Session} {options : Options}

/-- Converting the definitions that wait succeeds only if none waits in the end. -/
lemma pending_of_convertDefinitions (rounds : Nat) {u : Unit}
    (hrun : c.convertDefinitions host rounds s = (.ok u, t)) : t.definitions.pending = [] := by
  induction rounds generalizing s with
  | zero =>
    cases hpending : s.definitions.pending with
    | nil =>
      rw [convertDefinitions, Run.get_bind, hpending] at hrun
      cases hrun
      exact hpending
    | cons id rest =>
      rw [convertDefinitions, Run.get_bind, hpending] at hrun
      cases hrun
  | succ rounds ih =>
    by_cases hnone : s.definitions.pending = []
    · rw [convertDefinitions, Run.get_bind, hnone] at hrun
      cases hrun
      exact hnone
    · rw [convertDefinitions_succ rounds hnone] at hrun
      obtain ⟨_, v, -, hrest⟩ := Run.bind_eq_ok.1 hrun
      exact ih hrest

/-- A session is complete after an evaluation that succeeds, if no conversion was open before it. -/
lemma complete_of_evaluate (hs : s.Closed options) (hdistinct : s.definitions.Distinct)
    (hopen : ∀ id d, s.definitions.get? id = some d → d.state ≠ .resolving)
    (hb : (Contract.closed host options).Admits s c.branch) {entry : Entry} {bundle : Bundle}
    (hrun : c.evaluate host entry s = (.ok bundle, t)) : t.Complete options where
  closed := (((Contract.closed host options).meets_evaluate c hb entry).ok hs _ _ hrun).1
  ready := by
    intro id hid
    have hprogress := c.progresses_evaluate host entry
    have ht := (hprogress.moves hrun).distinct hdistinct
    obtain ⟨d, hd⟩ := Option.ne_none_iff_exists'.1 fun hnone => Entries.get?_eq_none_iff.1 hnone hid
    rcases hstate : d.state with body | _ | schema
    · obtain ⟨_, _, -, hloop, -⟩ := evaluate_eq_ok hrun
      have hmem := (Registry.mem_pending_iff ht).2 ⟨d, body, hd, hstate⟩
      rw [pending_of_convertDefinitions _ hloop] at hmem
      cases hmem
    · obtain ⟨d', hd', hstate'⟩ := hprogress.settles hrun id d hd hstate
      exact absurd hstate' (hopen id d' hd')
    · exact ⟨schema, Registry.ready?_eq_some_iff.2 ⟨d, hd, hstate⟩⟩

end Context

/-! ## Computations that only look at the session -/

namespace Eval

variable {α β : Type} {allowed : Prop} {s : Session} {m m' : Eval α}

/-- A computation goes on for ever. -/
def Endless (s : Session) (m : Eval α) : Prop := m s = (.error .diverged, s)

/-- A computation goes on for ever, if that is allowed; otherwise it has an answer, leaves the
session as it is, and another computation has the same answer. -/
def Below (allowed : Prop) (s : Session) (m m' : Eval α) : Prop :=
  (allowed ∧ Endless s m) ∨ ∃ a, m s = (.ok a, s) ∧ m' s = (.ok a, s)

/-- Two computations go on for ever, or have answers that agree. -/
def Alike (agree : α → α → Prop) (s : Session) (m m' : Eval α) : Prop :=
  (Endless s m ∧ Endless s m') ∨ ∃ a a', m s = (.ok a, s) ∧ m' s = (.ok a', s) ∧ agree a a'

/-- A computation goes on for ever, or has an answer of a certain kind. -/
def Settles (kind : α → Prop) (s : Session) (m : Eval α) : Prop :=
  Endless s m ∨ ∃ a, m s = (.ok a, s) ∧ kind a

lemma Endless.bind {f : α → Eval β} (h : Endless s m) : Endless s (m >>= f) :=
  Run.bind_of_error h

lemma Endless.not_ok (h : Endless s m) {a : α} : m s ≠ (.ok a, s) := by
  intro hok
  cases h.symm.trans hok

namespace Below

lemma pure (a : α) : Below allowed s (Pure.pure a) (Pure.pure a) := Or.inr ⟨a, rfl, rfl⟩

lemma bind {f f' : α → Eval β} (h : Below allowed s m m') (hf : ∀ a, Below allowed s (f a) (f' a)) :
    Below allowed s (m >>= f) (m' >>= f') := by
  rcases h with ⟨hallowed, hend⟩ | ⟨a, hm, hm'⟩
  · exact Or.inl ⟨hallowed, hend.bind⟩
  · rcases hf a with ⟨hallowed, hend⟩ | ⟨b, hb, hb'⟩
    · exact Or.inl ⟨hallowed, (Run.bind_of_ok hm).trans hend⟩
    · exact Or.inr ⟨b, (Run.bind_of_ok hm).trans hb, (Run.bind_of_ok hm').trans hb'⟩

lemma settles (h : Below allowed s m m') : Settles (fun _ => True) s m := by
  rcases h with ⟨-, hend⟩ | ⟨a, hm, -⟩
  · exact Or.inl hend
  · exact Or.inr ⟨a, hm, trivial⟩

/-- A computation that is above one with an answer has an answer. -/
lemma endless (h : Below allowed s m m') (hend : Endless s m') : Endless s m := by
  rcases h with ⟨-, hend⟩ | ⟨a, -, hm'⟩
  · exact hend
  · exact absurd hm' hend.not_ok

end Below

lemma Settles.below {kind : α → Prop} (h : Settles kind s m) (heq : m s = m' s) :
    Below True s m m' := by
  rcases h with hend | ⟨a, ha, -⟩
  · exact Or.inl ⟨trivial, hend⟩
  · exact Or.inr ⟨a, ha, heq ▸ ha⟩

lemma Alike.bind {agree : α → α → Prop} {agree' : β → β → Prop} {f f' : α → Eval β}
    (h : Alike agree s m m') (hf : ∀ a a', agree a a' → Alike agree' s (f a) (f' a')) :
    Alike agree' s (m >>= f) (m' >>= f') := by
  rcases h with ⟨hend, hend'⟩ | ⟨a, a', hm, hm', hagree⟩
  · exact Or.inl ⟨hend.bind, hend'.bind⟩
  · rcases hf a a' hagree with ⟨hend, hend'⟩ | ⟨b, b', hb, hb', hagree'⟩
    · exact Or.inl ⟨(Run.bind_of_ok hm).trans hend, (Run.bind_of_ok hm').trans hend'⟩
    · exact Or.inr ⟨b, b', (Run.bind_of_ok hm).trans hb, (Run.bind_of_ok hm').trans hb', hagree'⟩

lemma Alike.settles {agree : α → α → Prop} (h : Alike agree s m m') :
    Settles (fun _ => True) s m := by
  rcases h with ⟨hend, -⟩ | ⟨a, _, hm, -, -⟩
  · exact Or.inl hend
  · exact Or.inr ⟨a, hm, trivial⟩

lemma Alike.endless_iff {agree : α → α → Prop} (h : Alike agree s m m') :
    Endless s m ↔ Endless s m' := by
  rcases h with ⟨hend, hend'⟩ | ⟨a, a', hm, hm', -⟩
  · exact ⟨fun _ => hend', fun _ => hend⟩
  · exact ⟨fun hend => absurd hm hend.not_ok, fun hend => absurd hm' hend.not_ok⟩

end Eval

/-- If fewer and fewer of finitely many questions are open, and no more are closed once a round has
closed none, then what is open after as many rounds as there are questions is open for ever. -/
lemma open_of_card_le {β : Type} {questions : Finset β} {Open : Nat → β → Prop}
    (hclosed : ∀ {fuel x}, x ∈ questions → Open (fuel + 1) x → Open fuel x)
    (hstable : ∀ fuel, (∀ x ∈ questions, Open fuel x → Open (fuel + 1) x) →
      ∀ x ∈ questions, Open (fuel + 1) x → Open (fuel + 2) x)
    {x : β} (hx : x ∈ questions) {n : Nat} (hn : questions.card ≤ n) (hopen : Open n x) (m : Nat) :
    Open m x := by
  classical
  have hdown : ∀ {fuel fuel'}, fuel ≤ fuel' → Open fuel' x → Open fuel x := by
    intro fuel fuel' hle h
    induction fuel', hle using Nat.le_induction with
    | base => exact h
    | succ fuel' _ ih => exact ih (hclosed hx h)
  -- some round closes no question, because otherwise none would be left
  obtain ⟨fuel, hfuel, hround⟩ :
      ∃ fuel ≤ questions.card, ∀ x ∈ questions, Open fuel x → Open (fuel + 1) x := by
    by_contra hnone
    have hcard : ∀ k ≤ questions.card + 1,
        (questions.filter (Open k)).card + k ≤ questions.card := by
      intro k hk
      induction k with
      | zero => exact Finset.card_filter_le _ _
      | succ k ih =>
        have hlt : (questions.filter (Open (k + 1))).card < (questions.filter (Open k)).card := by
          refine Finset.card_lt_card
            (Finset.ssubset_iff_subset_ne.2 ⟨fun y hy => ?_, fun heq => ?_⟩)
          · obtain ⟨hmem, h⟩ := Finset.mem_filter.1 hy
            exact Finset.mem_filter.2 ⟨hmem, hclosed hmem h⟩
          · refine hnone ⟨k, by omega, fun y hy h => ?_⟩
            have hmem := Finset.mem_filter.2 ⟨hy, h⟩
            rw [← heq] at hmem
            exact (Finset.mem_filter.1 hmem).2
        have := ih (by omega)
        omega
    have := hcard _ (Nat.le_refl _)
    omega
  -- from then on no round closes one
  have hrounds : ∀ k, ∀ y ∈ questions, Open (fuel + k) y → Open (fuel + k + 1) y := by
    intro k
    induction k with
    | zero => exact hround
    | succ k ih => exact hstable (fuel + k) ih
  have hup : ∀ k, Open (fuel + k) x := by
    intro k
    induction k with
    | zero => exact hdown (by omega) hopen
    | succ k ih => exact hrounds k x hx ih
  exact hdown (Nat.le_add_left m fuel) (hup m)

/-! ## Ways through a schema -/

open Eval

/-- A way of answering questions about a schema that leaves the references it shows to something
else.  A question has one of finitely many kinds, on which alone it depends whether there is an
answer. -/
structure Traversal (Q α : Type) where
  /-- Answers a question about a schema, with answers for the references in it. -/
  through : (Schema → Q → Eval α) → Schema → Q → Eval α
  /-- The answer for a reference that stands for nothing but a reference. -/
  unresolved : Q → α
  /-- How many kinds of questions there are. -/
  kinds : Nat
  /-- The kind of a question. -/
  kind : Q → Fin kinds
  /-- Which answers lead to the same kinds of questions. -/
  agree : α → α → Prop
  /-- Better answers for the references give a better answer. -/
  below : ∀ {allowed s f f' source},
    (∀ r ∈ source.shown, ∀ q, Below allowed s (f r q) (f' r q)) →
    ∀ q, Below allowed s (through f source q) (through f' source q)
  /-- Questions of one kind are answered alike. -/
  alike : ∀ {s f source},
    (∀ r ∈ source.shown, ∀ q q', kind q = kind q' → Alike agree s (f r q) (f r q')) →
    ∀ q q', kind q = kind q' → Alike agree s (through f source q) (through f source q')
  unresolved_agree : ∀ {q q'}, kind q = kind q' → agree (unresolved q) (unresolved q')
  through_reference : ∀ f name arguments id q,
    through f (.reference name arguments id) q = f (.reference name arguments id) q

namespace Traversal

variable {Q α : Type} (T : Traversal Q α)

/-- Answers a question, following at most a given number of references on one path. -/
def within (resolve : Schema → Eval Schema) : Nat → Schema → Q → Eval α
  | 0, _, _ => throw .diverged
  | fuel + 1, source, q =>
    T.through (fun reference q => do
      match ← resolve reference with
      | .reference .. => return T.unresolved q
      | resolved => within resolve fuel resolved q) source q

/-- What lies behind a reference. -/
def behind (resolve : Schema → Eval Schema) (fuel : Nat) (reference : Schema) (q : Q) : Eval α := do
  match ← resolve reference with
  | .reference .. => return T.unresolved q
  | resolved => T.within resolve fuel resolved q

lemma within_reference (resolve : Schema → Eval Schema) (fuel : Nat) (name id : String)
    (arguments : List Schema) (q : Q) :
    T.within resolve (fuel + 1) (.reference name arguments id) q =
      T.behind resolve fuel (.reference name arguments id) q :=
  T.through_reference _ name arguments id q

section

variable {options : Options} {s : Session} (hs : s.Complete options) {e : Evaluator} {b : Branch}
  {name id : String} {arguments : List Schema} {q q' : Q} {fuel : Nat}

include hs

/-- A reference that the session knows is answered by what it stands for. -/
lemma behind_apply (hknown : s.Known name id) :
    T.behind (Evaluation.resolve e b) fuel (.reference name arguments id) q s =
      if (s.meaning id).reference? = none then
        T.within (Evaluation.resolve e b) fuel (s.meaning id) q s
      else (.ok (T.unresolved q), s) := by
  rw [behind, Run.bind_of_ok (hs.resolve_eq hknown arguments e b)]
  cases s.meaning id <;> rfl

/-- What relates the answers about bodies relates those about references. -/
lemma below_behind_of {allowed : Prop} {fuel' : Nat} (hknown : s.Known name id)
    (h : (s.meaning id).reference? = none →
      Below allowed s (T.within (Evaluation.resolve e b) fuel (s.meaning id) q)
        (T.within (Evaluation.resolve e b) fuel' (s.meaning id) q)) :
    Below allowed s (T.behind (Evaluation.resolve e b) fuel (.reference name arguments id) q)
      (T.behind (Evaluation.resolve e b) fuel' (.reference name arguments id) q) := by
  by_cases hbody : (s.meaning id).reference? = none
  · have hrelated := h hbody
    unfold Below Endless at hrelated ⊢
    rwa [T.behind_apply hs hknown, T.behind_apply hs hknown, if_pos hbody, if_pos hbody]
  · refine Or.inr ⟨T.unresolved q, ?_, ?_⟩ <;> rw [T.behind_apply hs hknown, if_neg hbody]

/-- More references that may be followed give a better answer. -/
lemma below_behind (fuel : Nat) (hknown : s.Known name id) :
    Below True s (T.behind (Evaluation.resolve e b) fuel (.reference name arguments id) q)
      (T.behind (Evaluation.resolve e b) (fuel + 1) (.reference name arguments id) q) := by
  induction fuel generalizing name arguments id q with
  | zero => exact T.below_behind_of hs hknown fun _ => Or.inl ⟨trivial, rfl⟩
  | succ fuel ih =>
    refine T.below_behind_of hs hknown fun _ => T.below (fun r hr q => ?_) q
    obtain ⟨name, arguments, other, rfl, hother⟩ := hs.known_of_mem_shown hr
    exact ih hother

lemma endless_of_le {fuel' : Nat} (hknown : s.Known name id) (hle : fuel ≤ fuel')
    (hend : Endless s
      (T.behind (Evaluation.resolve e b) fuel' (.reference name arguments id) q)) :
    Endless s (T.behind (Evaluation.resolve e b) fuel (.reference name arguments id) q) := by
  induction fuel', hle using Nat.le_induction with
  | base => exact hend
  | succ fuel' _ ih => exact ih ((T.below_behind hs fuel' hknown).endless hend)

/-- Questions of one kind are answered alike. -/
lemma alike_behind (fuel : Nat) (hknown : s.Known name id) (hkind : T.kind q = T.kind q') :
    Alike T.agree s (T.behind (Evaluation.resolve e b) fuel (.reference name arguments id) q)
      (T.behind (Evaluation.resolve e b) fuel (.reference name arguments id) q') := by
  induction fuel generalizing name arguments id q q' with
  | zero =>
    unfold Alike Endless
    rw [T.behind_apply hs hknown, T.behind_apply hs hknown]
    split
    · exact Or.inl ⟨rfl, rfl⟩
    · exact Or.inr ⟨_, _, rfl, rfl, T.unresolved_agree hkind⟩
  | succ fuel ih =>
    unfold Alike Endless
    rw [T.behind_apply hs hknown, T.behind_apply hs hknown]
    split
    · refine T.alike (fun r hr q q' hkind => ?_) q q' hkind
      obtain ⟨name, arguments, other, rfl, hother⟩ := hs.known_of_mem_shown hr
      exact ih hother hkind
    · exact Or.inr ⟨_, _, rfl, rfl, T.unresolved_agree hkind⟩

/-- Where only so many steps can be made, following one reference more gives an answer. -/
lemma below_of_shallow (n : Nat) (hknown : s.Known name id)
    (hshallow : s.definitions.Shallow Schema.shown n id) (hfuel : n < fuel) :
    Below False s (T.behind (Evaluation.resolve e b) fuel (.reference name arguments id) q)
      (T.behind (Evaluation.resolve e b) fuel (.reference name arguments id) q) := by
  induction n generalizing fuel name arguments id q with
  | zero =>
    obtain ⟨fuel, rfl⟩ : ∃ k, fuel = k + 1 := ⟨fuel - 1, by omega⟩
    refine T.below_behind_of hs hknown fun hbody => T.below (fun r hr q => ?_) q
    obtain ⟨name, arguments, other, rfl, -⟩ := hs.known_of_mem_shown hr
    exact absurd (Session.leadsOn_of_mem_meaning rfl hbody hr) (hshallow other)
  | succ n ih =>
    obtain ⟨fuel, rfl⟩ : ∃ k, fuel = k + 1 := ⟨fuel - 1, by omega⟩
    refine T.below_behind_of hs hknown fun hbody => T.below (fun r hr q => ?_) q
    obtain ⟨name, arguments, other, rfl, hother⟩ := hs.known_of_mem_shown hr
    exact ih hother (hshallow other (Session.leadsOn_of_mem_meaning rfl hbody hr)) (by omega)

/-- Only definitions can be followed for ever: a type of the library stands for anything. -/
lemma mem_names_of_endless (hknown : s.Known name id)
    (hend : Endless s
      (T.behind (Evaluation.resolve e b) (fuel + 1) (.reference name arguments id) q)) :
    id ∈ Entries.names s.definitions.entries := by
  by_contra hmem
  have hnone : ∀ other, ¬ s.definitions.LeadsOn Schema.shown id other :=
    fun other hother => hmem hother.mem_names
  have hquiet : Below False s
      (T.behind (Evaluation.resolve e b) (fuel + 1) (.reference name arguments id) q)
      (T.behind (Evaluation.resolve e b) (fuel + 1) (.reference name arguments id) q) :=
    T.below_of_shallow hs 0 hknown hnone (Nat.succ_pos fuel)
  rcases hquiet with ⟨hfalse, -⟩ | ⟨a, ha, -⟩
  · exact hfalse
  · exact hend.not_ok ha

/-- Whether a question of a given kind about a given definition is open: it has no answer yet. -/
def Open (resolve : Schema → Eval Schema) (s : Session) (fuel : Nat) (x : String × Fin T.kinds) :
    Prop :=
  ∃ q, T.kind q = x.2 ∧ Endless s (T.behind resolve (fuel + 1) (.reference x.1 [] x.1) q)

/-- All questions of one kind are open or none is, and the name and the arguments of a reference do
not matter. -/
lemma open_iff (hknown : s.Known name id) (hid : id ∈ Entries.names s.definitions.entries) :
    T.Open (Evaluation.resolve e b) s fuel (id, T.kind q) ↔ Endless s
      (T.behind (Evaluation.resolve e b) (fuel + 1) (.reference name arguments id) q) := by
  have hsame : Endless s
      (T.behind (Evaluation.resolve e b) (fuel + 1) (.reference id [] id) q) ↔ Endless s
      (T.behind (Evaluation.resolve e b) (fuel + 1) (.reference name arguments id) q) := by
    unfold Endless
    rw [T.behind_apply hs (Or.inr hid), T.behind_apply hs hknown]
  rw [← hsame]
  constructor
  · rintro ⟨q', hkind, hend⟩
    exact ((T.alike_behind hs _ (Or.inr hid) hkind).endless_iff).1 hend
  · exact fun hend => ⟨q, rfl, hend⟩

/-- A round that answers no open question changes no answer. -/
lemma below_behind_of_round
    (hround : ∀ other ∈ Entries.names s.definitions.entries, ∀ k,
      T.Open (Evaluation.resolve e b) s fuel (other, k) →
        T.Open (Evaluation.resolve e b) s (fuel + 1) (other, k))
    (hknown : s.Known name id) :
    Below True s (T.behind (Evaluation.resolve e b) (fuel + 2) (.reference name arguments id) q)
      (T.behind (Evaluation.resolve e b) (fuel + 1) (.reference name arguments id) q) := by
  have hstep : Below True s
      (T.behind (Evaluation.resolve e b) (fuel + 1) (.reference name arguments id) q)
      (T.behind (Evaluation.resolve e b) (fuel + 2) (.reference name arguments id) q) :=
    T.below_behind hs (fuel + 1) hknown
  rcases hstep with ⟨-, hbefore⟩ | ⟨a, hbefore, hafter⟩
  · have hid := T.mem_names_of_endless hs hknown hbefore
    have hopen := hround id hid _ ((T.open_iff hs hknown hid).2 hbefore)
    exact Or.inl ⟨trivial, (T.open_iff hs hknown hid).1 hopen⟩
  · exact Or.inr ⟨a, hafter, hbefore⟩

/-- What has no answer although each definition was followed once for each kind of question has none
however many references are followed. -/
lemma endless_of_card_le (hknown : s.Known name id) {n : Nat}
    (hn : T.kinds * s.definitions.entries.length < n)
    (hend : Endless s (T.behind (Evaluation.resolve e b) n (.reference name arguments id) q))
    (m : Nat) :
    Endless s (T.behind (Evaluation.resolve e b) m (.reference name arguments id) q) := by
  let questions := (Entries.names s.definitions.entries).toFinset ×ˢ
    (Finset.univ : Finset (Fin T.kinds))
  have hmem : ∀ {x}, x ∈ questions ↔ x.1 ∈ Entries.names s.definitions.entries := by
    simp [questions]
  have hclosed : ∀ {fuel x}, x ∈ questions → T.Open (Evaluation.resolve e b) s (fuel + 1) x →
      T.Open (Evaluation.resolve e b) s fuel x := by
    rintro fuel x hx ⟨q, hkind, hend⟩
    exact ⟨q, hkind, T.endless_of_le hs (Or.inr (hmem.1 hx)) (Nat.le_succ _) hend⟩
  have hstable : ∀ fuel, (∀ x ∈ questions, T.Open (Evaluation.resolve e b) s fuel x →
      T.Open (Evaluation.resolve e b) s (fuel + 1) x) →
      ∀ x ∈ questions, T.Open (Evaluation.resolve e b) s (fuel + 1) x →
        T.Open (Evaluation.resolve e b) s (fuel + 2) x := by
    rintro fuel hround x hx ⟨q, hkind, hend⟩
    have hbelow : Below True s
        (T.behind (Evaluation.resolve e b) (fuel + 3) (.reference x.1 [] x.1) q)
        (T.behind (Evaluation.resolve e b) (fuel + 2) (.reference x.1 [] x.1) q) := by
      refine T.below_behind_of hs (Or.inr (hmem.1 hx)) fun _ => T.below (fun r hr q => ?_) q
      obtain ⟨name, arguments, next, rfl, hnext⟩ := hs.known_of_mem_shown hr
      exact T.below_behind_of_round hs (fun other hother k => hround (other, k) (hmem.2 hother))
        hnext
    exact ⟨q, hkind, hbelow.endless hend⟩
  obtain ⟨k, rfl⟩ : ∃ k, n = k + 1 := ⟨n - 1, by omega⟩
  have hid := T.mem_names_of_endless hs hknown hend
  have hcard : questions.card ≤ k := by
    calc questions.card
        = (Entries.names s.definitions.entries).toFinset.card * T.kinds := by
          rw [Finset.card_product, Finset.card_univ, Fintype.card_fin]
      _ ≤ (Entries.names s.definitions.entries).length * T.kinds :=
          Nat.mul_le_mul_right _ (List.toFinset_card_le _)
      _ = T.kinds * s.definitions.entries.length := by
          rw [Entries.names, List.length_map, Nat.mul_comm]
      _ ≤ k := by omega
  have hforever := open_of_card_le hclosed hstable (hmem.2 hid) hcard
    ((T.open_iff hs hknown hid).2 hend) m
  exact T.endless_of_le hs hknown (Nat.le_succ m) ((T.open_iff hs hknown hid).1 hforever)

end

section

variable {options : Options} {s : Session} (hs : s.Complete options) {host : Host} {e : Evaluator}
  {b : Branch} {name id : String} {arguments : List Schema}

include hs

/-- With as many references as `unfoldings` allows, what has no answer never has one. -/
lemma answers_or_endless (hkinds : T.kinds ≤ 66) (hknown : s.Known name id) (q : Q) {n : Nat}
    (hn : Evaluation.unfoldings host s = (.ok n, s)) :
    (∃ a, T.within (Evaluation.resolve e b) n (.reference name arguments id) q s = (.ok a, s)) ∨
      ∀ fuel,
        Endless s (T.within (Evaluation.resolve e b) fuel (.reference name arguments id) q) := by
  obtain rfl : 66 * (s.definitions.entries.length + host.types.size + 2) = n := by
    injection (Prod.mk.inj hn).1
  have hmul := Nat.mul_le_mul_right s.definitions.entries.length hkinds
  obtain ⟨k, hk⟩ :
      ∃ k, 66 * (s.definitions.entries.length + host.types.size + 2) = k + 1 := ⟨_, rfl⟩
  rw [hk, T.within_reference]
  rcases (T.below_behind hs k hknown).settles with hend | ⟨a, ha, -⟩
  · refine Or.inr fun fuel => ?_
    cases fuel with
    | zero => rfl
    | succ fuel =>
      rw [T.within_reference]
      exact T.endless_of_card_le hs hknown (by omega) hend fuel
  · exact Or.inl ⟨a, ha⟩

/-- Without a circle there is an answer within as many references as `unfoldings` allows. -/
lemma answers_of_not_circular (hknown : s.Known name id)
    (hcircle : ¬ s.definitions.Circular Schema.shown id) (q : Q) {n : Nat}
    (hn : Evaluation.unfoldings host s = (.ok n, s)) :
    ∃ a, T.within (Evaluation.resolve e b) n (.reference name arguments id) q s = (.ok a, s) := by
  obtain rfl : 66 * (s.definitions.entries.length + host.types.size + 2) = n := by
    injection (Prod.mk.inj hn).1
  obtain ⟨k, hk⟩ :
      ∃ k, 66 * (s.definitions.entries.length + host.types.size + 2) = k + 1 := ⟨_, rfl⟩
  have hquiet : Below False s
      (T.behind (Evaluation.resolve e b) k (.reference name arguments id) q)
      (T.behind (Evaluation.resolve e b) k (.reference name arguments id) q) :=
    T.below_of_shallow hs _ hknown (Registry.shallow_of_not_circular hcircle) (by omega)
  rw [hk, T.within_reference]
  rcases hquiet with ⟨hfalse, -⟩ | ⟨a, ha, -⟩
  · exact hfalse.elim
  · exact ⟨a, ha⟩

end

/-- A question that insists on some of the references that a schema shows: if one of these has no
answer, the schema has none.  The answers to it are of one kind. -/
structure Insists (asked : Schema → List Schema) (q : Q) (kind : α → Prop) : Prop where
  settles : ∀ {s f source}, (∀ r ∈ source.shown, Settles kind s (f r q)) →
    Settles kind s (T.through f source q)
  endless : ∀ {s f source r}, (∀ r ∈ source.shown, Settles kind s (f r q)) → r ∈ asked source →
    Endless s (f r q) → Endless s (T.through f source q)
  unresolved : kind (T.unresolved q)
  asked_subset : ∀ source, asked source ⊆ source.shown

namespace Insists

variable {T} {asked : Schema → List Schema} {q : Q} {kind : α → Prop} (h : T.Insists asked q kind)
  {options : Options} {s : Session} (hs : s.Complete options) {e : Evaluator} {b : Branch}
  {name id : String} {arguments : List Schema}

include h hs

lemma settles_behind (fuel : Nat) (hknown : s.Known name id) :
    Settles kind s (T.behind (Evaluation.resolve e b) fuel (.reference name arguments id) q) := by
  induction fuel generalizing name arguments id with
  | zero =>
    unfold Settles Endless
    rw [T.behind_apply hs hknown]
    split
    · exact Or.inl rfl
    · exact Or.inr ⟨_, rfl, h.unresolved⟩
  | succ fuel ih =>
    unfold Settles Endless
    rw [T.behind_apply hs hknown]
    split
    · refine h.settles fun r hr => ?_
      obtain ⟨name, arguments, other, rfl, hother⟩ := hs.known_of_mem_shown hr
      exact ih hother
    · exact Or.inr ⟨_, rfl, h.unresolved⟩

/-- From a circle there is no way out for a question that insists on it. -/
lemma endless_of_circular (fuel : Nat) (hknown : s.Known name id)
    (hcircle : s.definitions.Circular asked id) :
    Endless s (T.behind (Evaluation.resolve e b) fuel (.reference name arguments id) q) := by
  induction fuel generalizing name arguments id with
  | zero =>
    obtain ⟨other, ⟨body, _, _, hready, hbody, -⟩, -⟩ := hcircle.exists_next
    have hmeaning : s.meaning id = body := by rw [Session.meaning, hready, Option.getD_some]
    unfold Endless
    rw [T.behind_apply hs hknown, hmeaning, if_pos hbody]
    rfl
  | succ fuel ih =>
    obtain ⟨other, ⟨body, name', arguments', hready, hbody, hmem⟩, hnext⟩ := hcircle.exists_next
    have hmeaning : s.meaning id = body := by rw [Session.meaning, hready, Option.getD_some]
    unfold Endless
    rw [T.behind_apply hs hknown, hmeaning, if_pos hbody]
    subst hmeaning
    refine h.endless (fun r hr => ?_) hmem ?_
    · obtain ⟨name, arguments, other, rfl, hother⟩ := hs.known_of_mem_shown hr
      exact h.settles_behind hs fuel hother
    · obtain ⟨_, _, _, heq, hother⟩ := hs.known_of_mem_shown (h.asked_subset _ hmem)
      cases heq
      exact ih hother hnext

end Insists

end Traversal

end ValueSchema
