/-
# Histories of guards

A guard is used well if every key that is left is the one that was entered last and not left since.
What such a history tells of the guard, `After.reflects`: its path consists of the keys that have been
entered and not left, each once; the keys to look up are those of the path; and the limit has been
reached if and only if some key was refused for it.

A search that leaves each key it has entered comes back to the path it started from,
`Visits.samePath`, and lengthens the history by calls that are undone, `Visits.after`.
-/
import Mathlib.Data.List.Nodup
import Mathlib.Data.List.TakeWhile
import Mathlib.Tactic.Common
import ValueSchema.Guard

namespace ValueSchema.Guard

variable {α : Type} [DecidableEq α] {g h k : Guard α} {key : α}

/-! ## Guards on one path -/

/-- A guard is on the path of an earlier one.  The limit may have been reached in between. -/
structure SamePath (g h : Guard α) : Prop where
  limit : h.limit = g.limit
  path : h.path = g.path
  active : h.active = g.active

omit [DecidableEq α] in
lemma SamePath.refl (g : Guard α) : g.SamePath g := ⟨rfl, rfl, rfl⟩

omit [DecidableEq α] in
lemma SamePath.trans (hgh : g.SamePath h) (hhk : h.SamePath k) : g.SamePath k :=
  ⟨hhk.limit.trans hgh.limit, hhk.path.trans hgh.path, hhk.active.trans hgh.active⟩

lemma SamePath.isActive (hgh : g.SamePath h) (key : α) : h.isActive key = g.isActive key := by
  rw [Guard.isActive, Guard.isActive, hgh.active]

/-- A key that is refused leaves the path as it is. -/
lemma samePath_enter (hrefused : (g.enter key).1 ≠ .entered) : g.SamePath (g.enter key).2 := by
  obtain ⟨-, henter⟩ | ⟨-, -, henter⟩ | ⟨-, -, henter⟩ := g.enter_cases key
  · rw [henter]
    exact .refl g
  · rw [henter]
    exact ⟨rfl, rfl, rfl⟩
  · rw [henter] at hrefused
    exact absurd rfl hrefused

/-- Leaving undoes entering. -/
lemma SamePath.leave (hentered : (g.enter key).1 = .entered)
    (hinside : (g.enter key).2.SamePath h) : g.SamePath (h.leave key) := by
  obtain ⟨hactive, -, henter⟩ := g.enter_of_entered key hentered
  rw [henter] at hinside
  refine ⟨hinside.limit, ?_, ?_⟩
  · rw [path_leave, hinside.path, List.dropLast_concat]
  · -- the key was not active before it was entered, so nothing else is taken out
    show h.active.filter (· ≠ key) = g.active
    rw [hinside.active, List.filter_cons_of_neg (by simp), List.filter_eq_self]
    intro other hother
    have hne : other ≠ key := by
      rintro rfl
      rw [Guard.isActive, ← Bool.not_eq_true, List.contains_iff_mem] at hactive
      exact hactive hother
    simpa using hne

lemma limit_enter (g : Guard α) (key : α) : (g.enter key).2.limit = g.limit := by
  obtain ⟨-, henter⟩ | ⟨-, -, henter⟩ | ⟨-, -, henter⟩ := g.enter_cases key <;> rw [henter]

/-- A key is entered if it is not active and the path is not full. -/
lemma enter_of_short (hactive : g.isActive key = false) (hdepth : g.depth < g.limit) :
    (g.enter key).1 = .entered := by
  rw [enter, hactive, if_neg Bool.false_ne_true, if_neg (Nat.not_le.2 hdepth)]

lemma short_of_enter (g : Guard α) {key : α} (hentered : (g.enter key).1 = .entered) :
    g.isActive key = false ∧ g.path.length < g.limit := by
  obtain ⟨hactive, hdepth, -⟩ := g.enter_of_entered key hentered
  exact ⟨hactive, hdepth⟩

lemma path_enter (hentered : (g.enter key).1 = .entered) :
    (g.enter key).2.path = g.path ++ [key] := by
  obtain ⟨-, -, henter⟩ := g.enter_of_entered key hentered
  rw [henter]

lemma isActive_enter (hentered : (g.enter key).1 = .entered) (other : α) :
    (g.enter key).2.isActive other = (other == key || g.isActive other) := by
  obtain ⟨-, -, henter⟩ := g.enter_of_entered key hentered
  rw [henter, isActive, isActive, List.contains_cons]

/-! ## Searches that come back -/

/-- How a search uses a guard: it stays, it is refused, it enters a key and leaves it again after such
a search, or it does several of these things one after the other. -/
inductive Visits : Guard α → Guard α → Prop where
  | stay (g : Guard α) : Visits g g
  | refused {g : Guard α} {key : α} (hrefused : (g.enter key).1 ≠ .entered) :
      Visits g (g.enter key).2
  | inside {g h : Guard α} {key : α} (hentered : (g.enter key).1 = .entered)
      (hinside : Visits (g.enter key).2 h) : Visits g (h.leave key)
  | next {g h k : Guard α} (hgh : Visits g h) (hhk : Visits h k) : Visits g k

/-- A search comes back to the path that it started from. -/
theorem Visits.samePath (hvisits : g.Visits h) : g.SamePath h := by
  induction hvisits with
  | stay g => exact .refl g
  | refused hrefused => exact samePath_enter hrefused
  | inside hentered _ ih => exact ih.leave hentered
  | next _ _ ih ih' => exact ih.trans ih'

/-! ## Histories -/

/-- A call of a guard, with the answer. -/
inductive Event (α : Type) where
  | enter (key : α) (answer : Answer)
  | leave (key : α)
deriving DecidableEq, Repr

/-- The keys that have been entered and not left since, the outermost first.  The latest event of a
history comes first. -/
def held : List (Event α) → List α
  | [] => []
  | .enter key .entered :: log => held log ++ [key]
  | .enter _ _ :: log => held log
  | .leave _ :: log => (held log).dropLast

omit [DecidableEq α] in
lemma held_refused {answer : Answer} (h : answer ≠ .entered) (key : α) (log : List (Event α)) :
    held (.enter key answer :: log) = held log := by
  cases answer with
  | entered => exact absurd rfl h
  | cycle => rfl
  | depthExceeded => rfl

/-- A guard that was new once, after a history of calls in which a key is only left if it is the
innermost one of those that have been entered. -/
inductive After (limit : Nat) : List (Event α) → Guard α → Prop where
  | new : After limit [] { limit }
  | enter {log : List (Event α)} {g : Guard α} (h : After limit log g) (key : α) :
      After limit (.enter key (g.enter key).1 :: log) (g.enter key).2
  | leave {log : List (Event α)} {g : Guard α} {key : α} (h : After limit log g)
      (hkey : (held log).getLast? = some key) : After limit (.leave key :: log) (g.leave key)

/-- A guard agrees with a history. -/
structure Reflects (limit : Nat) (log : List (Event α)) (g : Guard α) : Prop where
  limit_eq : g.limit = limit
  path_eq : g.path = held log
  nodup : g.path.Nodup
  mem_active : ∀ key, key ∈ g.active ↔ key ∈ g.path
  depth_le : g.depth ≤ limit
  exceeded_iff : g.exceeded = true ↔ ∃ key, .enter key .depthExceeded ∈ log

variable {limit : Nat} {log : List (Event α)}

lemma Reflects.isActive_iff (hg : g.Reflects limit log) (key : α) :
    g.isActive key = true ↔ key ∈ g.path := by
  rw [isActive, List.contains_iff_mem, hg.mem_active]

lemma Reflects.enter (hg : g.Reflects limit log) (key : α) :
    (g.enter key).2.Reflects limit (.enter key (g.enter key).1 :: log) := by
  obtain ⟨-, henter⟩ | ⟨-, -, henter⟩ | ⟨hactive, hdepth, henter⟩ := g.enter_cases key
  · rw [henter]
    exact ⟨hg.limit_eq, hg.path_eq, hg.nodup, hg.mem_active, hg.depth_le, by
      simpa using hg.exceeded_iff⟩
  · rw [henter]
    exact ⟨hg.limit_eq, hg.path_eq, hg.nodup, hg.mem_active, hg.depth_le, by simp⟩
  · rw [henter]
    have hnew : key ∉ g.path := by
      rw [← hg.isActive_iff, hactive]
      exact Bool.false_ne_true
    refine ⟨hg.limit_eq, ?_, ?_, ?_, ?_, by simpa using hg.exceeded_iff⟩
    · rw [held, ← hg.path_eq]
    · exact List.nodup_append.2 ⟨hg.nodup, List.nodup_singleton key, by
        rintro a ha b hb rfl
        exact hnew (List.mem_singleton.1 hb ▸ ha)⟩
    · intro other
      simp [hg.mem_active, or_comm]
    · rw [depth, List.length_append, List.length_singleton, ← hg.limit_eq]
      exact hdepth

/-- The innermost key does not occur further out, so it may be taken out of the keys to look up. -/
lemma Reflects.leave (hg : g.Reflects limit log) (hkey : (held log).getLast? = some key) :
    (g.leave key).Reflects limit (.leave key :: log) := by
  rw [← hg.path_eq] at hkey
  obtain ⟨outer, hpath⟩ := List.getLast?_eq_some_iff.1 hkey
  have hleft : (g.leave key).path = outer := by rw [path_leave, hpath, List.dropLast_concat]
  obtain ⟨hnodup, -, hdisjoint⟩ := List.nodup_append.1 (hpath ▸ hg.nodup)
  refine ⟨hg.limit_eq, ?_, ?_, fun other => ?_, ?_, by simpa using hg.exceeded_iff⟩
  · rw [path_leave, held, hg.path_eq]
  · rwa [hleft]
  · have hout : key ∉ outer := fun hmem =>
      hdisjoint key hmem key (List.mem_singleton_self key) rfl
    rw [mem_active_leave, hg.mem_active, hleft, hpath]
    by_cases hother : other = key
    · subst hother
      simp [hout]
    · simp [hother]
  · refine Nat.le_trans ?_ hg.depth_le
    rw [depth, depth, path_leave, List.length_dropLast]
    exact Nat.sub_le _ _

/-- What the history of a guard tells of it. -/
theorem After.reflects (hg : g.After limit log) : g.Reflects limit log := by
  induction hg with
  | new => exact ⟨rfl, rfl, List.nodup_nil, fun _ => Iff.rfl, Nat.zero_le _, by simp⟩
  | enter _ key ih => exact ih.enter key
  | leave _ hkey ih => exact ih.leave hkey

/-- A search only leaves innermost keys, and undoes in the end what it has done. -/
theorem Visits.after (hvisits : g.Visits h) (hg : g.After limit log) :
    ∃ more, h.After limit (more ++ log) ∧ held (more ++ log) = held log := by
  induction hvisits generalizing log with
  | stay g => exact ⟨[], hg, rfl⟩
  | @refused g key hrefused =>
    exact ⟨[.enter key (g.enter key).1], hg.enter key, held_refused hrefused key log⟩
  | @inside g h key hentered _ ih =>
    -- between entering and leaving as much is undone as is done, so the key is innermost again
    obtain ⟨more, hafter, hheld⟩ := ih (hg.enter key)
    rw [hentered, held] at hheld
    have hkey : (held (more ++ .enter key (g.enter key).1 :: log)).getLast? = some key := by
      rw [hentered, hheld, List.getLast?_concat]
    refine ⟨.leave key :: more ++ [.enter key (g.enter key).1], ?_, ?_⟩
    · simpa using hafter.leave hkey
    · simp only [List.cons_append, List.append_assoc, List.nil_append, held]
      rw [hentered, hheld, List.dropLast_concat]
  | next _ _ ih ih' =>
    obtain ⟨first, hfirst, hheld⟩ := ih hg
    obtain ⟨second, hsecond, hheld'⟩ := ih' hfirst
    exact ⟨second ++ first, by rwa [List.append_assoc], by rw [List.append_assoc, hheld', hheld]⟩

/-! ## Answers -/

/-- A key is said to close a cycle if and only if it is on the path. -/
lemma Reflects.enter_eq_cycle_iff (hg : g.Reflects limit log) (key : α) :
    (g.enter key).1 = .cycle ↔ key ∈ g.path := by
  rw [← hg.isActive_iff]
  obtain ⟨hactive, henter⟩ | ⟨hactive, -, henter⟩ | ⟨hactive, -, henter⟩ := g.enter_cases key <;>
    simp [hactive, henter]

/-- A key is refused for the limit if and only if it is not on the path and the path is full. -/
lemma Reflects.enter_eq_depthExceeded_iff (hg : g.Reflects limit log) (key : α) :
    (g.enter key).1 = .depthExceeded ↔ key ∉ g.path ∧ g.depth = limit := by
  rw [← hg.isActive_iff]
  obtain ⟨hactive, henter⟩ | ⟨hactive, hdepth, henter⟩ | ⟨hactive, hdepth, henter⟩ :=
    g.enter_cases key
  · simp [hactive, henter]
  · rw [hg.limit_eq] at hdepth
    simp [hactive, henter, Nat.le_antisymm hg.depth_le hdepth]
  · rw [hg.limit_eq] at hdepth
    simp [hactive, henter, Nat.ne_of_lt hdepth]

lemma cycleFrom_of_notMem (hkey : key ∉ g.path) : g.cycleFrom key = [] := by
  rw [cycleFrom, List.dropWhile_eq_nil_iff]
  intro other hother
  have hne : other ≠ key := by
    rintro rfl
    exact hkey hother
  simpa using hne

/-- The cycle that a key would close is the part of the path from it on. -/
lemma Reflects.cycleFrom_eq (hg : g.Reflects limit log) {outer inner : List α}
    (hpath : g.path = outer ++ key :: inner) : g.cycleFrom key = key :: inner := by
  have hnodup := hg.nodup
  rw [hpath] at hnodup
  rw [cycleFrom, hpath, List.dropWhile_append_of_pos, List.dropWhile_cons_of_neg (by simp)]
  intro other hother
  have hne : other ≠ key := fun heq =>
    (List.nodup_append.1 hnodup).2.2 other hother key (List.mem_cons_self ..) heq
  simpa using hne

end ValueSchema.Guard
