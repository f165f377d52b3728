import Mathlib.Data.List.Nodup
import Scriptorium.Registry.Standard
import Scriptorium.Proofs.Text.Runs

/-!
# Building a registry

A builder is filled by calls, of which some fail and then change nothing. Whatever the calls, no two
namespaces have one name (`names_nodup`), so that the built registry finds exactly its enabled namespaces
(`enabledNamespace?_build`), and no two members of a namespace have one (`members_nodup`). Calls about other
namespaces make the same of a builder that some namespaces are left out of (`run_without`).
-/

namespace Scriptorium

/-! ## The index -/

namespace Registry

variable {namespaces : List Namespace} {name : String} {i : Nat}

theorem mem_positions :
    (name, i) ∈ positions namespaces ↔ ∃ ns, namespaces[i]? = some ns ∧ ns.enabled ∧ ns.name = name := by
  simp [positions, List.mk_mem_zipIdx_iff_getElem?, and_assoc]

theorem mem_positions_of_lookup (h : (positions namespaces).lookup name = some i) :
    (name, i) ∈ positions namespaces := by
  obtain ⟨before, after, heq, -⟩ := List.lookup_eq_some_iff.1 h
  simp [heq]

/-- Where names are distinct, a name stands at one position only. -/
theorem lookup_positions (hnames : (namespaces.map (·.name)).Nodup) :
    (positions namespaces).lookup name = some i ↔ (name, i) ∈ positions namespaces := by
  refine ⟨mem_positions_of_lookup, fun hmem => ?_⟩
  obtain ⟨j, hj⟩ := Option.isSome_iff_exists.1 (List.lookup_isSome_iff.2 ⟨_, hmem, beq_self_eq_true name⟩)
  obtain ⟨ns, hns, -, hname⟩ := mem_positions.1 hmem
  obtain ⟨ns', hns', -, hname'⟩ := mem_positions.1 (mem_positions_of_lookup hj)
  have heq : (namespaces.map (·.name))[i]? = (namespaces.map (·.name))[j]? := by
    simp [List.getElem?_map, hns, hns', hname, hname']
  have hi : i < (namespaces.map (·.name)).length := by
    simpa using (List.getElem?_eq_some_iff.1 hns).1
  rw [hj, (List.getElem?_inj hi hnames).1 heq]

/-- A name that ends in no separator is looked up as it is. -/
theorem lookup_of_getLast? {r : Registry} (h : ∀ c ∈ name.toList.getLast?, isSeparator c = false) :
    r.lookup name = ((r.enabledNamespace? name).map Namespace.listed).getD [] := by
  have hwhole : name.toList.reverse.dropWhile isSeparator = name.toList.reverse := by
    have hback : ∀ c ∈ name.toList.reverse.head?, isSeparator c = false := by rwa [List.head?_reverse]
    exact @Text.dropWhile_of_head? _ [] _ (fun _ hx => absurd hx List.not_mem_nil) hback
  simp only [lookup, hwhole, List.reverse_reverse, String.ofList_toList]
  cases r.enabledNamespace? name with
  | none => rfl
  | some ns => rfl

end Registry

theorem Namespace.listed_perm (ns : Namespace) : ns.listed.Perm ns.members := List.mergeSort_perm _ _

namespace RegistryBuilder

variable {b b' : RegistryBuilder} {left : List String}

/-- The built registry finds exactly its enabled namespaces. -/
theorem enabledNamespace?_build (hnames : (b.namespaces.map (·.name)).Nodup) {name : String}
    {ns : Namespace} :
    b.build.enabledNamespace? name = some ns ↔ ns ∈ b.build.enabledNamespaces ∧ ns.name = name := by
  simp only [Registry.enabledNamespace?, Registry.enabledNamespaces, build, Option.bind_eq_some_iff,
    Registry.lookup_positions hnames, Registry.mem_positions, List.mem_filter]
  constructor
  · rintro ⟨i, ⟨ns', hns', henabled, hname⟩, hns⟩
    obtain rfl : ns' = ns := Option.some.inj (hns'.symm.trans hns)
    exact ⟨⟨List.mem_of_getElem? hns, henabled⟩, hname⟩
  · rintro ⟨⟨hmem, henabled⟩, hname⟩
    obtain ⟨i, hns⟩ := List.mem_iff_getElem?.1 hmem
    exact ⟨i, ⟨ns, hns, henabled, hname⟩, hns⟩

/-! ## Calls -/

/-- A call that changes a builder. -/
inductive Call where
  | register (ns : Namespace)
  | setEnabled (name : String) (enabled : Bool)

/-- The namespace that a call is about. -/
def Call.name : Call → String
  | .register ns => ns.name
  | .setEnabled name _ => name

def perform (b : RegistryBuilder) : Call → Except RegistryError RegistryBuilder
  | .register ns => b.register ns
  | .setEnabled name enabled => b.setEnabled name enabled

/-- The builder after a call; one that fails changes nothing. -/
def after (b : RegistryBuilder) (c : Call) : RegistryBuilder := (b.perform c).toOption.getD b

/-- The builder that calls make of an empty one. -/
def run (facts : HostFacts) (calls : List Call) : RegistryBuilder := calls.foldl after { facts }

/-- The standard builder registers each of its namespaces. -/
theorem standard_eq_run (facts : HostFacts) :
    standard facts = run facts (Registry.standardNamespaces.map .register) := rfl

theorem perform_eq_ok {c : Call} (h : b.perform c = .ok b') :
    (∃ ns, c = .register ns ∧ (∀ other ∈ b.namespaces, other.name ≠ ns.name) ∧
      (ns.members.map (·.name)).Nodup ∧ b' = { b with namespaces := b.namespaces ++ [ns] }) ∨
    (∃ name enabled, c = .setEnabled name enabled ∧
      b' = { b with namespaces := setFlag name enabled b.namespaces }) := by
  cases c with
  | register ns =>
    simp only [perform, register] at h
    split at h
    · cases h
    · next hnew =>
      split at h
      · cases h
      · next hmembers =>
        exact .inl ⟨ns, rfl, by simpa using hnew, (firstRepeat?_eq_none_iff.1 hmembers).1, (Except.ok.inj h).symm⟩
  | setEnabled name enabled =>
    simp only [perform, setEnabled] at h
    split at h
    · cases h
    · split at h
      · cases h
      · exact .inr ⟨name, enabled, rfl, (Except.ok.inj h).symm⟩

@[simp] theorem map_name_setFlag (name : String) (enabled : Bool) (namespaces : List Namespace) :
    (setFlag name enabled namespaces).map (·.name) = namespaces.map (·.name) := by
  induction namespaces with
  | nil => rfl
  | cons ns rest ih =>
    simp only [setFlag]
    split <;> simp [ih]

/-- A call keeps the names distinct. -/
theorem after_nodup (h : (b.namespaces.map (·.name)).Nodup) (c : Call) :
    ((b.after c).namespaces.map (·.name)).Nodup := by
  unfold after
  cases hc : b.perform c with
  | error e => exact h
  | ok b' =>
    obtain ⟨ns, -, hnew, -, rfl⟩ | ⟨name, enabled, -, rfl⟩ := perform_eq_ok hc
    · simpa [Except.toOption, List.nodup_append, h] using hnew
    · simpa [Except.toOption] using h

theorem names_nodup (facts : HostFacts) (calls : List Call) :
    ((run facts calls).namespaces.map (·.name)).Nodup :=
  List.foldlRecOn calls after (motive := fun b => (b.namespaces.map (·.name)).Nodup) List.nodup_nil
    fun _ h c _ => after_nodup h c

theorem exists_of_mem_setFlag {ns : Namespace} {name : String} {enabled : Bool} {namespaces : List Namespace}
    (h : ns ∈ setFlag name enabled namespaces) :
    ∃ other ∈ namespaces, ns.name = other.name ∧ ns.members = other.members := by
  induction namespaces with
  | nil => cases h
  | cons first rest ih =>
    rw [setFlag] at h
    split at h
    · rcases List.mem_cons.1 h with rfl | h
      · exact ⟨first, List.mem_cons_self, rfl, rfl⟩
      · exact ⟨ns, List.mem_cons_of_mem _ h, rfl, rfl⟩
    · rcases List.mem_cons.1 h with rfl | h
      · exact ⟨ns, List.mem_cons_self, rfl, rfl⟩
      · obtain ⟨other, hother, hsame⟩ := ih h
        exact ⟨other, List.mem_cons_of_mem _ hother, hsame⟩

/-- A call keeps the names of members distinct. -/
theorem after_members_nodup (h : ∀ ns ∈ b.namespaces, (ns.members.map (·.name)).Nodup) (c : Call) :
    ∀ ns ∈ (b.after c).namespaces, (ns.members.map (·.name)).Nodup := by
  unfold after
  cases hc : b.perform c with
  | error e => exact h
  | ok b' =>
    intro ns hns
    obtain ⟨new, -, -, hnew, rfl⟩ | ⟨name, enabled, -, rfl⟩ := perform_eq_ok hc
    · rcases List.mem_append.1 hns with hold | hlast
      · exact h ns hold
      · exact List.mem_singleton.1 hlast ▸ hnew
    · obtain ⟨other, hother, -, hmembers⟩ := exists_of_mem_setFlag hns
      exact hmembers ▸ h other hother

theorem members_nodup (facts : HostFacts) (calls : List Call) :
    ∀ ns ∈ (run facts calls).namespaces, (ns.members.map (·.name)).Nodup :=
  List.foldlRecOn calls after (motive := fun b => ∀ ns ∈ b.namespaces, (ns.members.map (·.name)).Nodup)
    (fun _ h => absurd h List.not_mem_nil) fun _ h c _ => after_members_nodup h c

/-! ## Leaving namespaces out -/

/-- The builder without the namespaces of some names. -/
def without (b : RegistryBuilder) (left : List String) : RegistryBuilder :=
  { b with namespaces := b.namespaces.filter (·.name ∉ left) }

theorem filter_setFlag (name : String) (enabled : Bool) (left : List String) (namespaces : List Namespace) :
    (setFlag name enabled namespaces).filter (·.name ∉ left) =
      if name ∈ left then namespaces.filter (·.name ∉ left)
      else setFlag name enabled (namespaces.filter (·.name ∉ left)) := by
  induction namespaces with
  | nil => simp [setFlag]
  | cons ns rest ih =>
    by_cases hname : ns.name = name
    · subst hname
      by_cases hleft : ns.name ∈ left <;> simp [setFlag, hleft]
    · by_cases hns : ns.name ∈ left <;> by_cases hleft : name ∈ left <;>
        simp_all [setFlag]

/-- A call about a namespace that is left out makes no difference. -/
theorem after_without_of_mem {c : Call} (h : c.name ∈ left) : (b.after c).without left = b.without left := by
  unfold after
  cases hc : b.perform c with
  | error e => rfl
  | ok b' =>
    obtain ⟨ns, rfl, -, -, rfl⟩ | ⟨name, enabled, rfl, rfl⟩ := perform_eq_ok hc
    · have hns : ns.name ∈ left := h
      simp [Except.toOption, without, hns]
    · simp only [Except.toOption, Option.getD_some, without, filter_setFlag, if_pos (show name ∈ left from h)]

/-- A namespace that is not left out is found among the others. -/
theorem find?_without {name : String} (h : name ∉ left) :
    (b.without left).namespaces.find? (·.name == name) = b.namespaces.find? (·.name == name) := by
  rw [without, List.find?_filter]
  congr 1
  funext ns
  by_cases hns : ns.name = name <;> simp [hns, h]

/-- A call about another namespace does the same with and without those that are left out. -/
theorem perform_without {c : Call} (h : c.name ∉ left) :
    (b.without left).perform c = (b.perform c).map (·.without left) := by
  cases c with
  | register ns =>
    have hns : ns.name ∉ left := h
    have hany : (b.without left).namespaces.any (·.name == ns.name) = b.namespaces.any (·.name == ns.name) := by
      rw [Bool.eq_iff_iff, List.any_eq_true, List.any_eq_true, ← List.find?_isSome, ← List.find?_isSome,
        find?_without hns]
    simp only [perform, register, hany]
    split
    · rfl
    · split
      · rfl
      · simp [Except.map, without, hns]
  | setEnabled name enabled =>
    have hname : name ∉ left := h
    simp only [perform, setEnabled, find?_without hname]
    split
    · rfl
    · split
      · rfl
      · simp only [Except.map, without, filter_setFlag, if_neg hname]

theorem after_without_of_not_mem {c : Call} (h : c.name ∉ left) :
    (b.after c).without left = (b.without left).after c := by
  simp only [after, perform_without h]
  cases b.perform c <;> rfl

/-- Leaving namespaces out of a builder is the same as never calling about them. -/
theorem run_without (facts : HostFacts) (calls : List Call) (left : List String) :
    run facts (calls.filter (·.name ∉ left)) = (run facts calls).without left := by
  suffices h : ∀ b : RegistryBuilder,
      (calls.filter (·.name ∉ left)).foldl after (b.without left) = (calls.foldl after b).without left from
    h { facts }
  induction calls with
  | nil => intro b; rfl
  | cons c calls ih =>
    intro b
    by_cases hc : c.name ∈ left
    · simp only [List.filter_cons, hc, not_true_eq_false, decide_false, Bool.false_eq_true, if_false,
        List.foldl_cons, ← ih, after_without_of_mem]
    · simp only [List.filter_cons, hc, not_false_eq_true, decide_true, if_true, List.foldl_cons, ← ih,
        after_without_of_not_mem]

end RegistryBuilder

end Scriptorium
