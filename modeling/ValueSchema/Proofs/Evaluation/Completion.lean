/-
# Every definition is converted in the end

A complete evaluation converts the definitions that wait, then those that wait after that, and so on.
Without a bound on them these rounds are `Context.Rounds`.  They come to an end: a round that does
not stop makes ready at least one definition that was not, and no session has more definitions than
its host has types.  The bound that `Context.evaluate` sets is therefore never met.

At the end nothing waits.  In a session that started empty nothing is being converted either, so
all definitions are ready.
-/
import Mathlib.Data.Finset.Card
import ValueSchema.Proofs.Evaluation.Progress

namespace ValueSchema

/-! ## Definitions that wait and definitions that are ready -/

namespace Registry

variable {r r' : Registry} {id : String}

lemma mem_pending_iff (hr : r.Distinct) :
    id ∈ r.pending ↔ ∃ d body, r.get? id = some d ∧ d.state = .pending body := by
  simp only [pending, List.mem_filterMap]
  constructor
  · rintro ⟨⟨name, d⟩, hmem, hid⟩
    dsimp only at hid
    split at hid
    · obtain rfl := Option.some.inj hid
      exact ⟨d, _, Entries.get?_of_mem hr hmem, ‹_›⟩
    · cases hid
  · rintro ⟨d, body, hd, hstate⟩
    exact ⟨(id, d), Entries.mem_of_get? hd, by simp [hstate]⟩

lemma mem_names_readyDefinitions_iff (hr : r.Distinct) :
    id ∈ Entries.names r.readyDefinitions ↔
      ∃ d schema, r.get? id = some d ∧ d.state = .ready schema := by
  simp only [Entries.names, readyDefinitions, List.mem_map, List.mem_filterMap]
  constructor
  · rintro ⟨e, ⟨⟨name, d⟩, hmem, he⟩, rfl⟩
    dsimp only at he
    split at he
    · obtain rfl := Option.some.inj he
      exact ⟨d, _, Entries.get?_of_mem hr hmem, ‹_›⟩
    · cases he
  · rintro ⟨d, schema, hd, hstate⟩
    exact ⟨(id, schema), ⟨(id, d), Entries.mem_of_get? hd, by simp [hstate]⟩, rfl⟩

/-- The ids of the definitions that are ready. -/
def readyIds (r : Registry) : Finset String := (Entries.names r.readyDefinitions).toFinset

lemma mem_readyIds_iff (hr : r.Distinct) :
    id ∈ r.readyIds ↔ ∃ d schema, r.get? id = some d ∧ d.state = .ready schema := by
  rw [readyIds, List.mem_toFinset, mem_names_readyDefinitions_iff hr]

/-- What is ready stays ready. -/
lemma Advances.readyIds_subset (h : r.Advances r') (hr : r.Distinct) (hr' : r'.Distinct) :
    r.readyIds ⊆ r'.readyIds := by
  intro id hid
  obtain ⟨d, schema, hd, hstate⟩ := (mem_readyIds_iff hr).1 hid
  obtain ⟨d', hd', -, hleads⟩ := h id d hd
  rw [hstate] at hleads
  exact (mem_readyIds_iff hr').2 ⟨d', schema, hd', hleads.eq_ready⟩

lemma notMem_readyIds_of_mem_pending (hr : r.Distinct) (hid : id ∈ r.pending) :
    id ∉ r.readyIds := by
  intro hready
  obtain ⟨d, body, hd, hpending⟩ := (mem_pending_iff hr).1 hid
  obtain ⟨d', schema, hd', hstate⟩ := (mem_readyIds_iff hr).1 hready
  obtain rfl := Option.some.inj (hd.symm.trans hd')
  rw [hpending] at hstate
  cases hstate

/-- As long as one definition waits, fewer are ready than there are. -/
lemma card_readyIds_lt (hr : r.Distinct) (hid : id ∈ r.pending) :
    r.readyIds.card < r.entries.length := by
  have hnames : ∀ {other d}, r.get? other = some d →
      other ∈ (Entries.names r.entries).toFinset := fun hd =>
    List.mem_toFinset.2 (Entries.mem_names_of_mem (Entries.mem_of_get? hd))
  have hsubset : r.readyIds ⊂ (Entries.names r.entries).toFinset := by
    refine (Finset.ssubset_iff_of_subset fun other hother => ?_).2
      ⟨id, ?_, notMem_readyIds_of_mem_pending hr hid⟩
    · obtain ⟨d, -, hd, -⟩ := (mem_readyIds_iff hr).1 hother
      exact hnames hd
    · obtain ⟨d, -, hd, -⟩ := (mem_pending_iff hr).1 hid
      exact hnames hd
  calc r.readyIds.card < (Entries.names r.entries).toFinset.card := Finset.card_lt_card hsubset
    _ ≤ (Entries.names r.entries).length := List.toFinset_card_le _
    _ = r.entries.length := by rw [Entries.names, List.length_map]

end Registry

/-- A session has at most one definition for each type: a type has one text and one target, and the
id follows from these. -/
lemma Session.Indexed.length_le {host : Host} {s : Session} (h : s.Indexed host)
    (hs : s.definitions.Distinct) : s.definitions.entries.length ≤ host.types.size := by
  have htype : ∀ id ∈ Entries.names s.definitions.entries, ∃ type name target arguments body,
      host.types.get? type = some (.application name target arguments body) ∧
        s.definitions.Assigns (host.types.display type) target id := by
    intro id hid
    obtain ⟨d, hd⟩ := Option.ne_none_iff_exists'.1 fun hnone => Entries.get?_eq_none_iff.1 hnone hid
    obtain ⟨type, name, arguments, body, hform, hassigns⟩ := h.instances id d hd
    exact ⟨type, name, d.target, arguments, body, hform, hassigns⟩
  choose! typeOf name target arguments body hform hassigns using htype
  have hmaps : ∀ id ∈ (Entries.names s.definitions.entries).toFinset,
      (typeOf id).index ∈ Finset.range host.types.size := by
    intro id hid
    have hsome := hform id (List.mem_toFinset.1 hid)
    exact Finset.mem_range.2 (Array.getElem?_eq_some_iff.1 hsome).1
  -- definitions of one type have the same text and the same target, so the same id
  have hinjective : Set.InjOn (fun id => (typeOf id).index)
      (Entries.names s.definitions.entries).toFinset := by
    intro id hid other hother hindex
    have htypes : typeOf id = typeOf other := by
      rcases hfirst : typeOf id with ⟨i⟩
      rcases hsecond : typeOf other with ⟨j⟩
      simp only [hfirst, hsecond] at hindex
      rw [hindex]
    have hid := List.mem_toFinset.1 hid
    have hother := List.mem_toFinset.1 hother
    have hforms := (hform id hid).symm.trans (htypes ▸ hform other hother)
    have htargets : target id = target other := by
      injection Option.some.inj hforms
    have hsame := hassigns other hother
    rw [← htypes, ← htargets] at hsame
    exact (hassigns id hid).unique hsame
  calc s.definitions.entries.length = (Entries.names s.definitions.entries).length := by
        rw [Entries.names, List.length_map]
    _ = (Entries.names s.definitions.entries).toFinset.card :=
        (List.toFinset_card_of_nodup hs).symm
    _ ≤ (Finset.range host.types.size).card := Finset.card_le_card_of_injOn _ hmaps hinjective
    _ = host.types.size := Finset.card_range _

/-! ## Rounds -/

namespace Context

variable {c : Context} {host : Host} {s t : Session}

/-- A computation that converts the definitions that wait, round after round, until none waits or
until a conversion stops.  The number counts the rounds. -/
inductive Rounds (c : Context) (host : Host) : Nat → Session → Except Stop Unit × Session → Prop
  | done {s : Session} (hnone : s.definitions.pending = []) : Rounds c host 0 s (.ok (), s)
  | stopped {s t : Session} {stop : Stop} (hsome : s.definitions.pending ≠ [])
      (hround : s.definitions.pending.forM (c.convertDefinition host) s = (.error stop, t)) :
      Rounds c host 1 s (.error stop, t)
  | next {s t : Session} {n : Nat} {result : Except Stop Unit × Session}
      (hsome : s.definitions.pending ≠ [])
      (hround : s.definitions.pending.forM (c.convertDefinition host) s = (.ok (), t))
      (hrest : Rounds c host n t result) : Rounds c host (n + 1) s result

lemma Rounds.pending_eq_nil {n : Nat} {result : Except Stop Unit × Session}
    (h : c.Rounds host n s result) (hok : result.1 = .ok ()) :
    result.2.definitions.pending = [] := by
  induction h with
  | done hnone => exact hnone
  | stopped => cases hok
  | next _ _ _ ih => exact ih hok

lemma convertDefinitions_succ (rounds : Nat) (hsome : s.definitions.pending ≠ []) :
    c.convertDefinitions host (rounds + 1) s =
      (s.definitions.pending.forM (c.convertDefinition host) >>= fun _ =>
        c.convertDefinitions host rounds) s := by
  rw [convertDefinitions, Run.get_bind]
  cases hpending : s.definitions.pending with
  | nil => exact absurd hpending hsome
  | cons id rest => rfl

/-- A bound on the rounds that is not met has no effect. -/
lemma Rounds.convertDefinitions_eq {n : Nat} {result : Except Stop Unit × Session}
    (h : c.Rounds host n s result) {rounds : Nat} (hn : n ≤ rounds) :
    c.convertDefinitions host rounds s = result := by
  induction h generalizing rounds with
  | done hnone =>
    rw [convertDefinitions, Run.get_bind, hnone]
    rfl
  | stopped hsome hround =>
    obtain ⟨rest, rfl⟩ : ∃ rest, rounds = rest + 1 := ⟨rounds - 1, by omega⟩
    rw [convertDefinitions_succ rest hsome, Run.bind_of_error hround]
  | next hsome hround _ ih =>
    obtain ⟨rest, rfl⟩ : ∃ rest, rounds = rest + 1 := ⟨rounds - 1, by omega⟩
    rw [convertDefinitions_succ rest hsome, Run.bind_of_ok hround]
    exact ih (Nat.le_of_succ_le_succ hn)

/-! ## One round -/

lemma progresses_forM (c : Context) (host : Host) (ids : List String) :
    Eval.Progresses host (ids.forM (c.convertDefinition host)) := by
  have h : (Simulation.progress host).Rel (ids.forM (c.convertDefinition host))
      (ids.forM (c.convertDefinition host)) :=
    Simulation.forM fun id => c.progresses_convertDefinition host id
  exact h

/-- A definition that waits is ready after its conversion. -/
lemma ready_of_convertDefinition {id : String} {u : Unit} (hs : s.definitions.Distinct)
    (hid : id ∈ s.definitions.pending)
    (hrun : c.convertDefinition host id s = (.ok u, t)) : id ∈ t.definitions.readyIds := by
  have ht := ((c.progresses_convertDefinition host id).moves hrun).distinct hs
  obtain ⟨found, v, hrun, hv⟩ := Run.bind_eq_ok.1 hrun
  cases hv
  obtain ⟨d, body, hd, hstate⟩ := (Registry.mem_pending_iff hs).1 hid
  have hclaim : s.definitions.begin? id = some (body, s.definitions.setState id .resolving) := by
    rw [Registry.begin?, hd, Option.map_some, hstate]
  rcases Evaluation.materialize_cases hrun with
    ⟨hnone, -, -⟩ | ⟨body', definitions, hclaim', ⟨schema, w, hbody, -, rfl⟩ | ⟨stop, -, hstop⟩⟩
  · rw [hclaim] at hnone
    cases hnone
  · obtain ⟨rfl, rfl⟩ := Prod.mk.inj (Option.some.inj (hclaim.symm.trans hclaim'))
    -- the definition is still there when its body has been converted
    have hmoves := (c.progresses_convertBody host _ _).moves hbody
    obtain ⟨d', hd', -⟩ := hmoves.advances id _ (Registry.get?_setState_self hd _)
    exact (Registry.mem_readyIds_iff ht).2 ⟨_, schema, Registry.get?_setState_self hd' _, rfl⟩
  · cases hstop

/-- A round that does not stop makes ready at least one definition more. -/
lemma card_readyIds_lt_of_round {u : Unit} (hs : s.definitions.Distinct)
    (hsome : s.definitions.pending ≠ [])
    (hround : s.definitions.pending.forM (c.convertDefinition host) s = (.ok u, t)) :
    s.definitions.readyIds.card < t.definitions.readyIds.card := by
  obtain ⟨id, rest, hpending⟩ := List.exists_cons_of_ne_nil hsome
  have hid : id ∈ s.definitions.pending := by rw [hpending]; exact List.mem_cons_self
  have hmoves := (progresses_forM c host _).moves hround
  rw [hpending] at hround
  obtain ⟨⟨⟩, v, hfirst, hrest⟩ := Run.bind_eq_ok.1 (show
    (c.convertDefinition host id >>= fun _ => rest.forM (c.convertDefinition host)) s = (.ok u, t)
    from hround)
  have hv := ((c.progresses_convertDefinition host id).moves hfirst).distinct hs
  have hready := ((progresses_forM c host rest).moves hrest).advances.readyIds_subset hv
    (hmoves.distinct hs) (ready_of_convertDefinition hs hid hfirst)
  exact Finset.card_lt_card ((Finset.ssubset_iff_of_subset
    (hmoves.advances.readyIds_subset hs (hmoves.distinct hs))).2
      ⟨id, hready, Registry.notMem_readyIds_of_mem_pending hs hid⟩)

/-! ## All rounds -/

/-- The rounds come to an end.  The induction is on how many definitions can still become ready. -/
lemma exists_rounds (c : Context) (hs : s.definitions.Distinct) (hindexed : s.Indexed host) :
    ∃ n ≤ host.types.size - s.definitions.readyIds.card, ∃ result, c.Rounds host n s result := by
  induction hk : host.types.size - s.definitions.readyIds.card using Nat.strongRecOn
    generalizing s with
  | ind k ih =>
    by_cases hpending : s.definitions.pending = []
    · exact ⟨0, Nat.zero_le _, _, .done hpending⟩
    · obtain ⟨id, hid⟩ := List.exists_mem_of_ne_nil _ hpending
      have hlt : s.definitions.readyIds.card < host.types.size :=
        Nat.lt_of_lt_of_le (Registry.card_readyIds_lt hs hid) (hindexed.length_le hs)
      -- a round that stops is the last one, and any other one leaves less to do
      rcases hround : s.definitions.pending.forM (c.convertDefinition host) s with ⟨stop | ⟨⟩, t⟩
      · exact ⟨1, by omega, _, .stopped hpending hround⟩
      · have hmoves := (progresses_forM c host _).moves hround
        have hcard := card_readyIds_lt_of_round hs hpending hround
        obtain ⟨n, hn, result, hrest⟩ :=
          ih _ (by omega) (hmoves.distinct hs) (hmoves.indexed hindexed) rfl
        exact ⟨n + 1, by omega, result, .next hpending hround hrest⟩

/-! ## Complete evaluations -/

/-- The outcome of a complete evaluation is that of the rounds after its first part. -/
lemma evaluate_of_ok {entry : Entry} {root : Schema} {outcome : Except Stop Unit} {u : Session}
    (hroot : c.schemaOfEntry host entry s = (.ok root, t))
    (hrun : c.convertDefinitions host (host.types.size + t.definitions.entries.length) t =
      (outcome, u)) :
    c.evaluate host entry s = (outcome.map fun _ =>
      Bundle.reduce ⟨root, u.definitions.readyDefinitions⟩
        u.options.inlineSingleUseDefinitions, u) := by
  rw [evaluate, Run.bind_of_ok hroot, Run.get_bind]
  cases outcome with
  | error stop => exact Run.bind_of_error hrun
  | ok value => exact Run.bind_of_ok hrun

lemma evaluate_eq_ok {entry : Entry} {bundle : Bundle} {u : Session}
    (hrun : c.evaluate host entry s = (.ok bundle, u)) :
    ∃ root t, c.schemaOfEntry host entry s = (.ok root, t) ∧
      c.convertDefinitions host (host.types.size + t.definitions.entries.length) t =
        (.ok (), u) ∧
      bundle = Bundle.reduce ⟨root, u.definitions.readyDefinitions⟩
        u.options.inlineSingleUseDefinitions := by
  obtain ⟨root, t, hroot, hrest⟩ := Run.bind_eq_ok.1 hrun
  rw [Run.get_bind] at hrest
  obtain ⟨⟨⟩, v, hloop, hend⟩ := Run.bind_eq_ok.1 hrest
  cases hend
  exact ⟨root, t, hroot, hloop, rfl⟩

/-- In a fresh session the rounds of an evaluation come to an end, within as many rounds as there are
types, and their outcome is that of the evaluation.  If it is a result, then every definition of the
session is ready. -/
theorem evaluate_converts (c : Context) (host : Host) (options : Options) (entry : Entry) :
    (∀ root s, c.schemaOfEntry host entry { options } = (.ok root, s) →
      ∃ n ≤ host.types.size, ∃ outcome t, c.Rounds host n s (outcome, t) ∧
        c.evaluate host entry { options } = (outcome.map fun _ =>
          Bundle.reduce ⟨root, t.definitions.readyDefinitions⟩
            t.options.inlineSingleUseDefinitions, t)) ∧
    ∀ bundle t, c.evaluate host entry { options } = (.ok bundle, t) →
      ∀ e ∈ t.definitions.entries, ∃ schema, e.2.state = .ready schema := by
  have hstart : ({ options } : Session).definitions.Distinct := List.nodup_nil
  have hrounds : ∀ {root s}, c.schemaOfEntry host entry { options } = (.ok root, s) →
      ∃ n ≤ host.types.size, ∃ result, c.Rounds host n s result ∧
        c.convertDefinitions host (host.types.size + s.definitions.entries.length) s = result := by
    intro root s hroot
    have hmoves := (c.progresses_schemaOfEntry host entry).moves hroot
    obtain ⟨n, hn, result, hrounds⟩ := exists_rounds c (hmoves.distinct hstart)
      (hmoves.indexed (Session.indexed_start options))
    exact ⟨n, by omega, result, hrounds, hrounds.convertDefinitions_eq (by omega)⟩
  constructor
  · intro root s hroot
    obtain ⟨n, hn, ⟨outcome, t⟩, hresult, hloop⟩ := hrounds hroot
    exact ⟨n, hn, outcome, t, hresult, evaluate_of_ok hroot hloop⟩
  · intro bundle t hrun e he
    have hprogress := c.progresses_evaluate host entry
    have ht := (hprogress.moves hrun).distinct hstart
    have hget := Entries.get?_of_mem ht he
    obtain ⟨root, s, hroot, hloop, -⟩ := evaluate_eq_ok hrun
    obtain ⟨n, -, result, hresult, hloop'⟩ := hrounds hroot
    obtain rfl := hloop.symm.trans hloop'
    rcases hstate : e.2.state with body | _ | schema
    · -- nothing waits any more
      have hmem := (Registry.mem_pending_iff ht).2 ⟨e.2, body, hget, hstate⟩
      rw [hresult.pending_eq_nil rfl] at hmem
      cases hmem
    · -- nothing was being converted at the start
      obtain ⟨d, hd, -⟩ := hprogress.settles hrun e.1 e.2 hget hstate
      cases hd
    · exact ⟨schema, rfl⟩

/-- Two generic types whose bodies refer to each other: `List<string>` is `{ item: Item<string> }`
and `Item<string>` is `{ list: List<string> }`. -/
def mutualTypes : Tables where
  types := [TypeForm.parameter "T" none,
    .application "List" ⟨12⟩ [Intrinsic.string.id] ⟨15⟩,
    .application "Item" ⟨12⟩ [Intrinsic.string.id] ⟨16⟩,
    .object { properties := [⟨"item", ⟨14⟩, ⟨14⟩, false, none⟩] },
    .object { properties := [⟨"list", ⟨13⟩, ⟨13⟩, false, none⟩] }].foldl
      (fun types form => (types.add form).2) {}

theorem evaluate_mutualTypes :
    ∃ bundle t, (start {}).evaluate mutualTypes.host (.type ⟨13⟩ none) { options := {} } =
        (.ok bundle, t) ∧
      (∃ n ≤ mutualTypes.types.size, ∃ root s,
        (start {}).schemaOfEntry mutualTypes.host (.type ⟨13⟩ none) { options := {} } =
          (.ok root, s) ∧ (start {}).Rounds mutualTypes.host n s (.ok (), t)) ∧
      Entries.names t.definitions.entries = ["List<string>", "Item<string>"] ∧
      ∀ e ∈ t.definitions.entries, ∃ schema, e.2.state = .ready schema := by
  have hpasses : Run.passes ((start {}).evaluate mutualTypes.host (.type ⟨13⟩ none))
      { options := {} } (fun _ t =>
        Entries.names t.definitions.entries == ["List<string>", "Item<string>"]) = true := by
    decide +kernel
  obtain ⟨bundle, t, hrun, hnames⟩ := Run.exists_of_passes hpasses
  obtain ⟨hrounds, hready⟩ := evaluate_converts (start {}) mutualTypes.host {} (.type ⟨13⟩ none)
  obtain ⟨root, s, hroot, -⟩ := evaluate_eq_ok hrun
  obtain ⟨n, hn, outcome, u, hresult, hagain⟩ := hrounds root s hroot
  obtain ⟨houtcome, rfl⟩ := Prod.mk.inj (hrun.symm.trans hagain)
  cases outcome with
  | error stop => cases houtcome
  | ok value =>
    exact ⟨bundle, t, hrun, ⟨n, hn, root, s, hroot, hresult⟩, beq_iff_eq.1 hnames, hready bundle t hrun⟩

end Context

end ValueSchema
