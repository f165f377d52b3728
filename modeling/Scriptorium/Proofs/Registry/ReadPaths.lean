import Mathlib.Data.List.Nodup
import Mathlib.Data.Prod.Lex
import Scriptorium.Proofs.Registry.Building
import Scriptorium.Proofs.Text.Utf8

/-!
# What a built registry answers

A built registry is read in two ways: through the index of its enabled namespaces, and through the flags in
its catalogue. Whatever calls have made it, both describe the same namespaces and members
(`readPaths_agree`). This rests on an invariant of the builder (`WellFormed`), which every call keeps
(`WellFormed.after`): names are distinct, core namespaces are enabled, and every flag is what the last
successful call about it said (`lastSaid?`). That a call which fails changes nothing is read off the same
calls written as programs that change a builder in place (`inPlace_run`).
-/

namespace Scriptorium

open Text

/-! ## Composed namespaces -/

namespace Namespace

/-- A namespace that is made from nothing by the methods that add to one. -/
inductive Composed : Namespace → Prop where
  | new (name description : String) : Composed { name, description }
  | asCore {ns : Namespace} : ns.Composed → ns.asCore.Composed
  | method {ns : Namespace} (name signature description : String) :
      ns.Composed → (ns.method name signature description).Composed
  | property {ns : Namespace} (name signature description : String) :
      ns.Composed → (ns.property name signature description).Composed
  | writableProperty {ns : Namespace} (name signature description : String) :
      ns.Composed → (ns.writableProperty name signature description).Composed
  | withExample {ns : Namespace} (text : String) : ns.Composed → (ns.withExample text).Composed
  | withRank {ns : Namespace} (rank : Nat) : ns.Composed → (ns.withRank rank).Composed

/-- Whatever is added to a namespace, it stays enabled. -/
theorem Composed.enabled {ns : Namespace} (h : ns.Composed) : ns.enabled = true := by
  induction h with
  | new => rfl
  | asCore _ ih | method _ _ _ _ ih | property _ _ _ _ ih | writableProperty _ _ _ _ ih | withExample _ _ ih
  | withRank _ _ ih => exact ih

end Namespace

namespace RegistryBuilder

variable {b b' : RegistryBuilder} {c : Call} {name : String} {enabled : Bool} {facts : HostFacts}

/-! ## Calls in place -/

/-- What is done to a builder in place: what was written before an error stays written. -/
abbrev InPlace := ExceptT RegistryError (StateM RegistryBuilder)

theorem InPlace.run_bind_ok {α β : Type} {x : InPlace α} {f : α → InPlace β} {a : α}
    (h : x.run b = (.ok a, b')) : (x >>= f).run b = (f a).run b' := by
  have hx : x b = (.ok a, b') := h
  change StateT.bind x (ExceptT.bindCont f) b = _
  simp only [StateT.bind, hx]
  rfl

theorem InPlace.run_bind_error {α β : Type} {x : InPlace α} {f : α → InPlace β} {e : RegistryError}
    (h : x.run b = (.error e, b')) : (x >>= f).run b = (.error e, b') := by
  have hx : x b = (.error e, b') := h
  change StateT.bind x (ExceptT.bindCont f) b = _
  simp only [StateT.bind, hx]
  rfl

/-- Goes through the members of a namespace and stops at the first name that repeats. -/
def refuseRepeats (ns : Namespace) : InPlace Unit := do
  let mut seen : List String := []
  for m in ns.members do
    if m.name ∈ seen then throw (.duplicateMember ns.name m.name)
    seen := m.name :: seen

def registerInPlace (ns : Namespace) : InPlace Unit := do
  if (← get).namespaces.any (·.name == ns.name) then throw (.duplicateNamespace ns.name)
  refuseRepeats ns
  modify fun b => { b with namespaces := b.namespaces ++ [ns] }

def setEnabledInPlace (name : String) (enabled : Bool) : InPlace Unit := do
  match (← get).namespaces.find? (·.name == name) with
  | none => throw (.unknownNamespace name)
  | some ns =>
    if ns.core && !enabled then throw (.coreNamespace name)
    modify fun b => { b with namespaces := setFlag name enabled b.namespaces }

def Call.inPlace : Call → InPlace Unit
  | .register ns => registerInPlace ns
  | .setEnabled name enabled => setEnabledInPlace name enabled

theorem refuseRepeats_run (ns : Namespace) (b : RegistryBuilder) :
    (refuseRepeats ns).run b =
      ((match firstRepeat? [] (ns.members.map (·.name)) with
        | some m => .error (.duplicateMember ns.name m)
        | none => .ok ()), b) := by
  -- The loop starts with no name seen; for the induction, it may have seen any.
  suffices h : ∀ (members : List Member) (seen : List String),
      (forIn members seen fun m seen => do
        if m.name ∈ seen then throw (.duplicateMember ns.name m.name)
        pure (.yield (m.name :: seen)) : InPlace (List String)).run b =
        ((match firstRepeat? seen (members.map (·.name)) with
          | some m => .error (.duplicateMember ns.name m)
          | none => .ok ((members.map (·.name)).reverse ++ seen)), b) by
    have hloop := h ns.members []
    cases hrepeat : firstRepeat? [] (ns.members.map (·.name)) with
    | some m =>
      rw [hrepeat] at hloop
      exact InPlace.run_bind_error hloop
    | none =>
      rw [hrepeat] at hloop
      exact InPlace.run_bind_ok hloop
  intro members
  induction members with
  | nil => exact fun _ => rfl
  | cons m members ih =>
    intro seen
    rw [List.forIn_cons]
    by_cases hm : m.name ∈ seen
    · simp only [hm, if_true, List.map_cons, firstRepeat?]
      rfl
    · simp only [hm, if_false, List.map_cons, firstRepeat?, List.reverse_cons, List.append_assoc,
        List.singleton_append, ← ih]
      rfl

/-- In place, a call returns what it should and leaves the builder that it should. -/
theorem inPlace_run (c : Call) (b : RegistryBuilder) :
    c.inPlace.run b = ((b.perform c).map fun _ => (), b.after c) := by
  have hget {α : Type} (f : RegistryBuilder → InPlace α) : (get >>= f).run b = (f b).run b := rfl
  cases c with
  | register ns =>
    simp only [Call.inPlace, registerInPlace, perform, after, register, hget]
    by_cases hnew : b.namespaces.any (·.name == ns.name) = true
    · simp only [hnew, if_true]
      rfl
    · simp only [hnew]
      have hrun := refuseRepeats_run ns b
      cases hrepeat : firstRepeat? [] (ns.members.map (·.name)) with
      | some m =>
        rw [hrepeat] at hrun
        exact InPlace.run_bind_error hrun
      | none =>
        rw [hrepeat] at hrun
        exact InPlace.run_bind_ok hrun
  | setEnabled name enabled =>
    simp only [Call.inPlace, setEnabledInPlace, perform, after, setEnabled, hget]
    cases b.namespaces.find? (·.name == name) with
    | none => rfl
    | some ns =>
      by_cases hcore : (ns.core && !enabled) = true
      · simp only [hcore, if_true]
        rfl
      · simp only [hcore]
        rfl

/-! ## What calls keep -/

/-- What a call says about whether a namespace is enabled, if it succeeds. -/
def said? (b : RegistryBuilder) (name : String) : Call → Option Bool
  | .register _ => none
  | .setEnabled other enabled =>
    if other = name ∧ (b.setEnabled other enabled).isOk then some enabled else none

/-- What the last successful call said about whether a namespace is enabled. -/
def lastSaid? (b : RegistryBuilder) (name : String) : List Call → Option Bool
  | [] => none
  | c :: calls => (lastSaid? (b.after c) name calls).or (b.said? name c)

/-- A builder in which names are distinct, and where it is known of each namespace whether it is enabled. -/
structure WellFormed (b : RegistryBuilder) (said : String → Option Bool) : Prop where
  names : (b.namespaces.map (·.name)).Nodup
  members : ∀ ns ∈ b.namespaces, (ns.members.map (·.name)).Nodup
  core : ∀ ns ∈ b.namespaces, ns.core = true → ns.enabled = true
  enabled : ∀ ns ∈ b.namespaces, ns.enabled = (said ns.name).getD true
  /-- Nothing is said about a namespace that is not there. -/
  absent : ∀ name, (∀ ns ∈ b.namespaces, ns.name ≠ name) → said name = none

/-- Where names are distinct, a flag is changed in the one namespace of its name. -/
theorem mem_setFlag {namespaces : List Namespace} (hnames : (namespaces.map (·.name)).Nodup) {ns : Namespace} :
    ns ∈ setFlag name enabled namespaces ↔
      ∃ old ∈ namespaces, ns = if old.name = name then { old with enabled } else old := by
  induction namespaces with
  | nil => simp [setFlag]
  | cons first rest ih =>
    rw [List.map_cons, List.nodup_cons] at hnames
    simp only [setFlag, List.exists_mem_cons_iff]
    by_cases hfirst : first.name = name
    · have hrest : ∀ old ∈ rest, (if old.name = name then { old with enabled } else old) = old := fun old hold =>
        if_neg fun heq => hnames.1 (List.mem_map.2 ⟨old, hold, heq.trans hfirst.symm⟩)
      simp only [hfirst, beq_self_eq_true, if_true, List.mem_cons]
      refine or_congr_right ⟨fun hns => ⟨ns, hns, (hrest ns hns).symm⟩, ?_⟩
      rintro ⟨old, hold, rfl⟩
      rwa [hrest old hold]
    · simp only [hfirst, beq_iff_eq, if_false, List.mem_cons, ih hnames.2]

theorem setEnabled_eq_ok (h : b.setEnabled name enabled = .ok b') :
    (∃ ns ∈ b.namespaces, ns.name = name ∧ (ns.core = true → enabled = true)) ∧
      b' = { b with namespaces := setFlag name enabled b.namespaces } := by
  simp only [setEnabled] at h
  split at h
  · cases h
  · next ns hfind =>
    split at h
    · cases h
    · next hcore =>
      have hname : ns.name = name := by simpa using List.find?_some hfind
      exact ⟨⟨ns, List.mem_of_find?_eq_some hfind, hname, by simpa using hcore⟩, (Except.ok.inj h).symm⟩

/-- Enabling or disabling a namespace makes it say so, and nothing else changes. -/
theorem WellFormed.setFlag {said : String → Option Bool} (h : b.WellFormed said)
    (hset : b.setEnabled name enabled = .ok b') :
    b'.WellFormed fun other => if name = other then some enabled else said other := by
  have hafter : b.after (.setEnabled name enabled) = b' := by simp [after, perform, hset, Except.toOption]
  have hnames := after_nodup h.names (.setEnabled name enabled)
  have hmembers := after_members_nodup h.members (.setEnabled name enabled)
  rw [hafter] at hnames hmembers
  obtain ⟨⟨found, hfound, hname, hcore⟩, rfl⟩ := setEnabled_eq_ok hset
  refine ⟨hnames, hmembers, ?_, ?_, ?_⟩
  · intro ns hns
    obtain ⟨old, hold, rfl⟩ := (mem_setFlag h.names).1 hns
    by_cases heq : old.name = name
    · have : old = found := List.inj_on_of_nodup_map h.names hold hfound (heq.trans hname.symm)
      simpa [this, hname] using hcore
    · simpa [heq] using h.core old hold
  · intro ns hns
    obtain ⟨old, hold, rfl⟩ := (mem_setFlag h.names).1 hns
    by_cases heq : old.name = name
    · simp [heq]
    · simpa [heq, Ne.symm heq] using h.enabled old hold
  · intro other hother
    have hne : name ≠ other := by
      rintro rfl
      exact hother _ ((mem_setFlag h.names).2 ⟨found, hfound, rfl⟩) (by simp [hname])
    rw [if_neg hne]
    refine h.absent other fun old hold heq => ?_
    exact hother _ ((mem_setFlag h.names).2 ⟨old, hold, rfl⟩) (by simp [heq, Ne.symm hne])

/-- A namespace that is registered is enabled, as nothing was said about it. -/
theorem WellFormed.register {said : String → Option Bool} {ns : Namespace} (h : b.WellFormed said)
    (hregister : b.register ns = .ok b') (hns : ns.enabled = true) : b'.WellFormed said := by
  have hafter : b.after (.register ns) = b' := by simp [after, perform, hregister, Except.toOption]
  have hnames := after_nodup h.names (.register ns)
  have hmembers := after_members_nodup h.members (.register ns)
  rw [hafter] at hnames hmembers
  obtain ⟨_, hc, hnew, -, rfl⟩ | ⟨_, _, hc, -⟩ := perform_eq_ok (c := .register ns) hregister
  · cases hc
    refine ⟨hnames, hmembers, ?_, ?_, ?_⟩
    · intro other hother
      rcases List.mem_append.1 hother with hold | hlast
      · exact h.core other hold
      · exact fun _ => List.mem_singleton.1 hlast ▸ hns
    · intro other hother
      rcases List.mem_append.1 hother with hold | hlast
      · exact h.enabled other hold
      · rw [List.mem_singleton.1 hlast, h.absent ns.name hnew]
        exact hns
    · exact fun name hname => h.absent name fun other hother => hname other (List.mem_append_left _ hother)
  · cases hc

/-- Each call keeps a builder well-formed; if it succeeds, what it says is known. -/
theorem WellFormed.after {said : String → Option Bool} (h : b.WellFormed said)
    (hc : ∀ ns, c = .register ns → ns.enabled = true) :
    (b.after c).WellFormed fun name => (b.said? name c).or (said name) := by
  cases c with
  | register ns =>
    cases hregister : b.register ns with
    | ok b' =>
      simpa [RegistryBuilder.after, perform, hregister, Except.toOption, said?] using h.register hregister (hc ns rfl)
    | error e => simpa [RegistryBuilder.after, perform, hregister, Except.toOption, said?] using h
  | setEnabled name enabled =>
    cases hset : b.setEnabled name enabled with
    | ok b' =>
      have hsaid : (fun other => (b.said? other (.setEnabled name enabled)).or (said other)) =
          fun other => if name = other then some enabled else said other := by
        funext other
        by_cases hother : name = other
        · simp [said?, ← hother, hset, Except.isOk, Except.toBool]
        · simp [said?, hother]
      rw [hsaid]
      simpa [RegistryBuilder.after, perform, hset, Except.toOption] using h.setFlag hset
    | error e =>
      simpa [RegistryBuilder.after, perform, hset, Except.toOption, said?, Except.isOk, Except.toBool] using h

/-- Calls that register enabled namespaces keep a builder well-formed. -/
theorem WellFormed.foldl {said : String → Option Bool} (h : b.WellFormed said) (calls : List Call)
    (hcalls : ∀ ns, .register ns ∈ calls → ns.enabled = true) :
    (calls.foldl RegistryBuilder.after b).WellFormed fun name => (b.lastSaid? name calls).or (said name) := by
  induction calls generalizing b said with
  | nil => simpa [lastSaid?] using h
  | cons c calls ih =>
    have hfirst := h.after (c := c) fun ns hns => hcalls ns (hns ▸ List.mem_cons_self)
    simpa [lastSaid?, Option.or_assoc] using ih hfirst fun ns hns => hcalls ns (List.mem_cons_of_mem _ hns)

theorem wellFormed_run (facts : HostFacts) (calls : List Call)
    (hcalls : ∀ ns, .register ns ∈ calls → ns.enabled = true) :
    (run facts calls).WellFormed fun name => lastSaid? { facts } name calls := by
  have hempty : ({ facts } : RegistryBuilder).WellFormed fun _ => none :=
    ⟨List.nodup_nil, nofun, nofun, nofun, fun _ _ => rfl⟩
  simpa [run] using hempty.foldl calls hcalls

end RegistryBuilder

/-! ## The listed members -/

namespace Member

variable {m m' : Member}

/-- Lower ranks stand first, and of one rank the names are in the order of their bytes. -/
def Precedes (m m' : Member) : Prop :=
  m.rank < m'.rank ∨ (m.rank = m'.rank ∧ utf8 m.name.toList < utf8 m'.name.toList)

/-- What members are sorted by. -/
def sortKey (m : Member) : ℕ ×ₗ List Char := toLex (m.rank, m.name.toList)

theorem sortKey_lt_iff : m.sortKey < m'.sortKey ↔ m.Precedes m' := by
  simp only [sortKey, Precedes, Prod.Lex.toLex_lt_toLex, utf8_lt_iff]

theorem sortKey_le_iff : m.sortKey ≤ m'.sortKey ↔ listedBefore m m' = true := by
  simp only [sortKey, listedBefore, Prod.Lex.toLex_le_toLex, Bool.or_eq_true, Bool.and_eq_true, Bool.not_eq_true',
    decide_lt_eq_false_iff, decide_eq_true_eq, beq_iff_eq]

end Member

/-- Where the names of the members are distinct, they are listed in strict order. -/
theorem Namespace.pairwise_listed {ns : Namespace} (h : (ns.members.map (·.name)).Nodup) :
    ns.listed.Pairwise Member.Precedes := by
  have hsorted : ns.listed.Pairwise fun m m' => m.sortKey ≤ m'.sortKey :=
    pairwise_mergeSort_key (fun _ _ => Member.sortKey_le_iff) ns.members
  have hdistinct := List.pairwise_map.1 ((ns.listed_perm.map (·.name)).nodup_iff.2 h)
  refine (hsorted.and hdistinct).imp ?_
  rintro m m' ⟨hle, hne⟩
  refine Member.sortKey_lt_iff.1 (lt_of_le_of_ne hle fun heq => hne ?_)
  simp only [Member.sortKey, EmbeddingLike.apply_eq_iff_eq, Prod.mk.injEq, String.toList_inj] at heq
  exact heq.2

/-! ## Reading -/

namespace Registry

variable {r : Registry} {name : String}

/-- The namespaces of the catalogue that are found by their names. -/
def found (r : Registry) : List Namespace := r.namespaces.filterMap fun ns => r.enabledNamespace? ns.name

/-- The registry after a late registration, which changes nothing if it fails. -/
def afterRegister (r : Registry) (ns : Namespace) : Registry := (r.register ns).toOption.getD r

/-- All ways to read a registry describe one set of namespaces and members: those that are marked as enabled. -/
structure Agrees (r : Registry) : Prop where
  enabledNamespace? : ∀ name ns,
    r.enabledNamespace? name = some ns ↔ ns ∈ r.enabledNamespaces ∧ ns.name = name
  resolve : ∀ name member m,
    r.resolve name member = some m ↔
      ∃ ns ∈ r.enabledNamespaces, ns.name = name ∧ m ∈ ns.members ∧ m.name = member
  /-- A member is the only one of its name, in the only namespace of its name. -/
  unique : ∀ ns ∈ r.enabledNamespaces, ∀ ns' ∈ r.enabledNamespaces, ns.name = ns'.name →
    ∀ m ∈ ns.members, ∀ m' ∈ ns'.members, m.name = m'.name → ns = ns' ∧ m = m'
  lookup : ∀ ns ∈ r.enabledNamespaces, (∀ c ∈ ns.name.toList.getLast?, isSeparator c = false) →
    (r.lookup ns.name).Perm ns.members ∧ (r.lookup ns.name).Pairwise Member.Precedes
  lookup_absent : ∀ name, (∀ ns ∈ r.enabledNamespaces, ns.name ≠ name) →
    (∀ c ∈ name.toList.getLast?, isSeparator c = false) → r.lookup name = []
  stats : r.stats =
    { namespaces := r.found.length
      disabled := r.namespaces.countP fun ns => (r.enabledNamespace? ns.name).isNone
      methods := (r.found.flatMap (·.members)).countP (·.kind = .method)
      properties := (r.found.flatMap (·.members)).countP (·.kind = .property) }
  register : ∀ ns, r.register ns = .error (.sealed ns.name) ∧ r.afterRegister ns = r

end Registry

namespace RegistryBuilder

variable {b : RegistryBuilder} {said : String → Option Bool}

theorem WellFormed.enabledNamespace?_eq_none (h : b.WellFormed said) {name : String} :
    b.build.enabledNamespace? name = none ↔ ∀ ns ∈ b.build.enabledNamespaces, ns.name ≠ name := by
  simp only [Option.eq_none_iff_forall_ne_some, ne_eq, enabledNamespace?_build h.names, not_and]

/-- What is found by name is what is marked as enabled. -/
theorem WellFormed.found_build (h : b.WellFormed said) : b.build.found = b.build.enabledNamespaces := by
  rw [Registry.found, Registry.enabledNamespaces, ← List.filterMap_eq_filter]
  refine List.filterMap_congr fun ns hns => ?_
  cases henabled : ns.enabled with
  | true =>
    have hfound := (enabledNamespace?_build h.names).2 ⟨List.mem_filter.2 ⟨hns, henabled⟩, rfl⟩
    simpa [henabled, Option.guard] using hfound
  | false =>
    have hnone : b.build.enabledNamespace? ns.name = none := by
      refine h.enabledNamespace?_eq_none.2 fun other hother hname => ?_
      obtain ⟨hmem, henabled'⟩ := List.mem_filter.1 hother
      have := List.inj_on_of_nodup_map h.names hmem hns hname
      simp [this, henabled] at henabled'
    simpa [henabled, Option.guard] using hnone

/-- Where the names of the members are distinct, each member is found by its name. -/
theorem member?_eq_some {ns : Namespace} (h : (ns.members.map (·.name)).Nodup) {member : String} {m : Member} :
    ns.member? member = some m ↔ m ∈ ns.members ∧ m.name = member := by
  constructor
  · intro hm
    exact ⟨List.mem_of_find?_eq_some hm, by simpa using List.find?_some hm⟩
  · rintro ⟨hm, rfl⟩
    have hsome : (ns.member? m.name).isSome := List.find?_isSome.2 ⟨m, hm, beq_self_eq_true _⟩
    obtain ⟨m', hm'⟩ := Option.isSome_iff_exists.1 hsome
    have hname : m'.name = m.name := by simpa using List.find?_some hm'
    rw [hm', List.inj_on_of_nodup_map h (List.mem_of_find?_eq_some hm') hm hname]

theorem WellFormed.stats_build (h : b.WellFormed said) :
    b.build.stats =
      { namespaces := b.build.found.length
        disabled := b.build.namespaces.countP fun ns => (b.build.enabledNamespace? ns.name).isNone
        methods := (b.build.found.flatMap (·.members)).countP (·.kind = .method)
        properties := (b.build.found.flatMap (·.members)).countP (·.kind = .property) } := by
  have hlength : b.build.found.length =
      b.build.namespaces.countP fun ns => (b.build.enabledNamespace? ns.name).isSome :=
    List.length_filterMap_eq_countP
  have htotal := List.length_eq_countP_add_countP (fun ns => (b.build.enabledNamespace? ns.name).isSome)
    (l := b.build.namespaces)
  have hdisabled : b.build.namespaces.length - b.build.found.length =
      b.build.namespaces.countP fun ns => (b.build.enabledNamespace? ns.name).isNone := by
    simp only [Bool.not_eq_true, Option.isSome_eq_false_iff, Bool.decide_eq_true] at htotal
    omega
  rw [← hdisabled, h.found_build, Registry.stats]
  congr

theorem WellFormed.agrees (h : b.WellFormed said) : b.build.Agrees := by
  have hfind {name : String} {ns : Namespace} :
      b.build.enabledNamespace? name = some ns ↔ ns ∈ b.build.enabledNamespaces ∧ ns.name = name :=
    enabledNamespace?_build h.names
  have hmem {ns : Namespace} (hns : ns ∈ b.build.enabledNamespaces) : ns ∈ b.namespaces := (List.mem_filter.1 hns).1
  refine ⟨fun _ _ => hfind, ?_, ?_, ?_, ?_, h.stats_build, fun ns => ⟨rfl, rfl⟩⟩
  · intro name member m
    simp only [Registry.resolve, Option.bind_eq_some_iff, hfind]
    constructor
    · rintro ⟨ns, ⟨hns, hname⟩, hm⟩
      exact ⟨ns, hns, hname, (member?_eq_some (h.members ns (hmem hns))).1 hm⟩
    · rintro ⟨ns, hns, hname, hm⟩
      exact ⟨ns, ⟨hns, hname⟩, (member?_eq_some (h.members ns (hmem hns))).2 hm⟩
  · intro ns hns ns' hns' hname m hm m' hm' hmember
    obtain rfl := List.inj_on_of_nodup_map h.names (hmem hns) (hmem hns') hname
    exact ⟨rfl, List.inj_on_of_nodup_map (h.members ns (hmem hns)) hm hm' hmember⟩
  · intro ns hns hlast
    have hlisted : b.build.lookup ns.name = ns.listed := by
      rw [Registry.lookup_of_getLast? hlast, hfind.2 ⟨hns, rfl⟩]
      rfl
    rw [hlisted]
    exact ⟨ns.listed_perm, Namespace.pairwise_listed (h.members ns (hmem hns))⟩
  · intro name habsent hlast
    rw [Registry.lookup_of_getLast? hlast, h.enabledNamespace?_eq_none.2 habsent]
    rfl

/-- The standard namespaces are composed. -/
theorem composed_of_mem_standardNamespaces : ∀ ns ∈ Registry.standardNamespaces, ns.Composed := by
  simp only [Registry.standardNamespaces, List.forall_mem_cons]
  have hcore (name description : String) : Namespace.Composed { name, description, core := true } :=
    .asCore (.new name description)
  refine ⟨?_, ?_, ?_, ?_, ?_, ?_, nofun⟩
  all_goals
    delta Registry.hostNamespace Registry.uiNamespace Registry.dataNamespace Registry.docNamespace
      Registry.mathNamespace Registry.fsNamespace
    repeat' first
      | apply hcore
      | apply Namespace.Composed.new
      | apply Namespace.Composed.method
      | apply Namespace.Composed.property
      | apply Namespace.Composed.writableProperty
      | apply Namespace.Composed.withExample
      | apply Namespace.Composed.withRank

/-- Calls that register composed namespaces: what they keep of a builder, and what the registry built at the end
answers. -/
theorem readPaths_agree (facts : HostFacts) (calls : List Call)
    (hcomposed : ∀ ns, .register ns ∈ calls → ns.Composed) :
    (∀ c : Call, c.inPlace.run (run facts calls) =
      (((run facts calls).perform c).map fun _ => (), run facts (calls ++ [c]))) ∧
    (∀ (c : Call) e b', c.inPlace.run (run facts calls) = (Except.error e, b') → b' = run facts calls) ∧
    (run facts calls).WellFormed (fun name => lastSaid? { facts } name calls) ∧
    (run facts calls).build.Agrees := by
  have hwell := wellFormed_run facts calls fun ns hns => (hcomposed ns hns).enabled
  refine ⟨fun c => ?_, fun c e b' hc => ?_, hwell, hwell.agrees⟩
  · simpa [run] using inPlace_run c (run facts calls)
  · rw [inPlace_run, Prod.mk.injEq] at hc
    obtain ⟨herror, rfl⟩ := hc
    rw [after]
    cases hperform : (run facts calls).perform c with
    | ok b' => simp [hperform, Except.map] at herror
    | error e => rfl

/-- The standard namespaces, one of them registered again and two of them disabled, of which one may not be. -/
theorem readPaths_agree_standard :
    let calls := Registry.standardNamespaces.map Call.register ++
      [.register Registry.mathNamespace, .setEnabled "host" false, .setEnabled "math" false]
    (∀ ns, .register ns ∈ calls → ns.Composed) ∧ (run {} calls).build.Agrees ∧
      (run {} calls).build.enabledNamespaces.map (·.name) = ["host", "ui", "data", "doc", "fs"] := by
  intro calls
  have hcomposed : ∀ ns, .register ns ∈ calls → ns.Composed := by
    intro ns hns
    refine composed_of_mem_standardNamespaces ns ?_
    simp only [calls, List.mem_append, List.mem_map, List.mem_cons, List.not_mem_nil, or_false, reduceCtorEq,
      Call.register.injEq, exists_eq_right] at hns
    rcases hns with hns | rfl
    · exact hns
    · simp [Registry.standardNamespaces]
  exact ⟨hcomposed, (readPaths_agree {} calls hcomposed).2.2.2, by decide⟩

end RegistryBuilder

end Scriptorium
