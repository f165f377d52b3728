import Scriptorium.Assist.Template
import Scriptorium.Assist.Chat
import Scriptorium.Script.Session
import Scriptorium.Proofs.Registry.Building

/-!
# Disabled namespaces

A disabled namespace is as good as one that was never registered: of a registry, completion, the assistant
and scripts see the enabled namespaces only (`disabled_as_unregistered`). What is built on a registry reaches
it in three ways, and where two registries agree on these (`SameReach`) they agree on everything else.
-/

namespace Scriptorium

open Editor Assist

namespace Registry

variable {r r' : Registry}

/-- Two registries that agree on all that the rest of the program is built on. -/
structure SameReach (r r' : Registry) : Prop where
  facts : r.facts = r'.facts
  enabledNamespaces : r.enabledNamespaces = r'.enabledNamespaces
  enabledNamespace? : ∀ name, r.enabledNamespace? name = r'.enabledNamespace? name

namespace SameReach

theorem resolve (h : SameReach r r') (namespaceName member : String) :
    r.resolve namespaceName member = r'.resolve namespaceName member := by
  simp only [Registry.resolve, h.enabledNamespace?]

theorem lookup (h : SameReach r r') (name : String) : r.lookup name = r'.lookup name := by
  simp only [Registry.lookup, h.enabledNamespace?]

theorem items (h : SameReach r r') (typed : List Char) : Completion.items r typed = Completion.items r' typed := by
  simp only [Completion.items, Completion.memberCandidates, Completion.plainCandidates, h.lookup,
    h.enabledNamespaces]

theorem systemPrompt (h : SameReach r r') : systemPrompt r = systemPrompt r' := by
  simp only [Assist.systemPrompt, h.enabledNamespaces]

theorem chatBackend (h : SameReach r r') (client : HttpClient) (c : AssistConfig) :
    chatBackend client c r = chatBackend client c r' := by
  simp only [Assist.chatBackend, chatRequest, h.systemPrompt]

theorem mentionedMembers (h : SameReach r r') :
    ∀ ts : List Token, mentionedMembers r ts = mentionedMembers r' ts
  | ns :: sep :: member :: rest => by
    simp only [Assist.mentionedMembers, h.resolve, h.mentionedMembers (sep :: member :: rest)]
  | [] | [_] | [_, _] => rfl

theorem templateAnswer (h : SameReach r r') (q : Request) : templateAnswer r q = templateAnswer r' q := by
  simp only [Assist.templateAnswer, continuation, explanation, h.items, h.mentionedMembers]

/-- The counts of enabled namespaces and their members. -/
theorem stats (h : SameReach r r') : { r.stats with disabled := 0 } = { r'.stats with disabled := 0 } := by
  simp only [Registry.stats, h.enabledNamespaces]

end SameReach

/-- Two registries that differ at most in their catalogues and in the number of disabled namespaces. -/
structure Indistinguishable (r r' : Registry) : Prop where
  facts : r.facts = r'.facts
  enabledNamespaces : r.enabledNamespaces = r'.enabledNamespaces
  enabledNamespace? : ∀ name, r.enabledNamespace? name = r'.enabledNamespace? name
  resolve : ∀ namespaceName member, r.resolve namespaceName member = r'.resolve namespaceName member
  lookup : ∀ name, r.lookup name = r'.lookup name
  register : ∀ ns, r.register ns = r'.register ns
  stats : { r.stats with disabled := 0 } = { r'.stats with disabled := 0 }
  items : ∀ typed, Completion.items r typed = Completion.items r' typed
  systemPrompt : systemPrompt r = systemPrompt r'
  /-- Also what a chat server is asked, whatever it is configured to be. -/
  chatBackend : ∀ client c, chatBackend client c r = chatBackend client c r'
  templateAnswer : ∀ q, templateAnswer r q = templateAnswer r' q
  /-- The objects that scripts find, and what they read and assign on them. -/
  reachable : Script.Session.reachable r = Script.Session.reachable r'
  reading : ∀ {α : Type} (shadow : String → Option α) namespaceName key,
    HostObject.reading r shadow namespaceName key = HostObject.reading r' shadow namespaceName key
  assignable : ∀ namespaceName key,
    HostObject.assignable r namespaceName key = HostObject.assignable r' namespaceName key

theorem SameReach.indistinguishable (h : SameReach r r') : Indistinguishable r r' where
  facts := h.facts
  enabledNamespaces := h.enabledNamespaces
  enabledNamespace? := h.enabledNamespace?
  resolve := h.resolve
  lookup := h.lookup
  register _ := rfl
  stats := h.stats
  items := h.items
  systemPrompt := h.systemPrompt
  chatBackend := h.chatBackend
  templateAnswer := h.templateAnswer
  reachable := by simp only [Script.Session.reachable, h.enabledNamespaces]
  reading shadow namespaceName key := by simp only [HostObject.reading, h.resolve]
  assignable namespaceName key := by simp only [HostObject.assignable, h.resolve]

end Registry

/-! ## Disabled and left out -/

namespace RegistryBuilder

open Registry

variable {b : RegistryBuilder} {left : List String}

/-- Leaving disabled namespaces out changes nothing that can be reached. -/
theorem sameReach_without (hnames : (b.namespaces.map (·.name)).Nodup)
    (hdisabled : ∀ ns ∈ b.namespaces, ns.name ∈ left → ns.enabled = false) :
    SameReach b.build (b.without left).build := by
  have henabled : b.build.enabledNamespaces = (b.without left).build.enabledNamespaces := by
    simp only [enabledNamespaces, build, without, List.filter_filter]
    refine List.filter_congr fun ns hns => ?_
    by_cases hleft : ns.name ∈ left
    · simp [hleft, hdisabled ns hns hleft]
    · simp [hleft]
  have hnames' : ((b.without left).namespaces.map (·.name)).Nodup :=
    hnames.sublist (List.filter_sublist.map _)
  refine ⟨rfl, henabled, fun name => Option.ext fun ns => ?_⟩
  rw [enabledNamespace?_build hnames, enabledNamespace?_build hnames', henabled]

/-- However a builder was filled, a registry does not show which disabled namespaces it has: without them it
is the same to everyone. -/
theorem disabled_as_unregistered (facts : HostFacts) (calls : List Call) (left : List String)
    (hdisabled : ∀ ns ∈ (run facts calls).namespaces, ns.name ∈ left → ns.enabled = false) :
    Indistinguishable (run facts calls).build (run facts (calls.filter (·.name ∉ left))).build := by
  rw [run_without]
  exact (sameReach_without (names_nodup facts calls) hdisabled).indistinguishable

/-- The standard namespaces, with two of them disabled. -/
def reduced : List Call :=
  Registry.standardNamespaces.map .register ++ [.setEnabled "math" false, .setEnabled "fs" false]

theorem disabled_as_unregistered_reduced :
    (∀ ns ∈ (run {} reduced).namespaces, ns.name ∈ ["math", "fs"] → ns.enabled = false) ∧
      Indistinguishable (run {} reduced).build
        (run {} (reduced.filter (·.name ∉ ["math", "fs"]))).build := by
  have hdisabled : ∀ ns ∈ (run {} reduced).namespaces, ns.name ∈ ["math", "fs"] → ns.enabled = false := by
    decide
  exact ⟨hdisabled, disabled_as_unregistered {} reduced ["math", "fs"] hdisabled⟩

/-! ## Disabling -/

/-- The namespace, disabled if it has one of the names. -/
def disabledIf (names : List String) (ns : Namespace) : Namespace :=
  if ns.name ∈ names then { ns with enabled := false } else ns

/-- The calls that disable namespaces. -/
def disables (names : List String) : List Call := names.map (.setEnabled · false)

theorem map_disabledIf_of_absent {names : List String} {namespaces : List Namespace}
    (h : ∀ ns ∈ namespaces, ns.name ∉ names) : namespaces.map (disabledIf names) = namespaces :=
  (List.map_congr_left fun ns hns => if_neg (h ns hns)).trans (List.map_id _)

@[simp] theorem disabledIf_name (names : List String) (ns : Namespace) : (disabledIf names ns).name = ns.name := by
  unfold disabledIf
  split <;> rfl

@[simp] theorem disabledIf_core (names : List String) (ns : Namespace) : (disabledIf names ns).core = ns.core := by
  unfold disabledIf
  split <;> rfl

theorem disabledIf_disabledIf (name : String) (names : List String) (ns : Namespace) :
    disabledIf names (disabledIf [name] ns) = disabledIf (name :: names) ns := by
  by_cases hname : ns.name = name <;> by_cases hmem : ns.name ∈ names <;> simp_all [disabledIf]

theorem setFlag_eq_map {name : String} {namespaces : List Namespace} (h : (namespaces.map (·.name)).Nodup) :
    setFlag name false namespaces = namespaces.map (disabledIf [name]) := by
  induction namespaces with
  | nil => rfl
  | cons ns rest ih =>
    obtain ⟨hns, hrest⟩ := List.nodup_cons.1 h
    by_cases hname : ns.name = name
    · have hother : rest.map (disabledIf [name]) = rest := by
        refine map_disabledIf_of_absent fun other hmem h => hns ?_
        exact List.mem_map.2 ⟨other, hmem, (List.mem_singleton.1 h).trans hname.symm⟩
      simp [setFlag, disabledIf, hname, hother]
    · simp [setFlag, disabledIf, hname, ih hrest]

/-- Disabling a namespace that is not core disables it, whether it is registered or not. -/
theorem after_disable (name : String) (hnames : (b.namespaces.map (·.name)).Nodup)
    (hcore : ∀ ns ∈ b.namespaces, ns.name = name → ns.core = false) :
    (b.after (.setEnabled name false)).namespaces = b.namespaces.map (disabledIf [name]) := by
  simp only [after, perform, setEnabled]
  split
  · next hnone =>
    refine (map_disabledIf_of_absent fun ns hns => ?_).symm
    simpa using List.find?_eq_none.1 hnone ns hns
  · next ns hfind =>
    have hns : ns.core = false :=
      hcore ns (List.mem_of_find?_eq_some hfind) (by simpa using List.find?_some hfind)
    simp [hns, Except.toOption, setFlag_eq_map hnames]

theorem after_disables {names : List String} (hnames : (b.namespaces.map (·.name)).Nodup)
    (hcore : ∀ ns ∈ b.namespaces, ns.name ∈ names → ns.core = false) :
    ((disables names).foldl after b).namespaces = b.namespaces.map (disabledIf names) := by
  induction names generalizing b with
  | nil => exact (map_disabledIf_of_absent fun _ _ => List.not_mem_nil).symm
  | cons name names ih =>
    have hfirst := after_disable name hnames fun ns hns hname => hcore ns hns (by simp [hname])
    have hrest : ∀ ns ∈ (b.after (.setEnabled name false)).namespaces, ns.name ∈ names → ns.core = false := by
      rw [hfirst]
      intro _ hmap hmem
      obtain ⟨ns, hns, rfl⟩ := List.mem_map.1 hmap
      rw [disabledIf_name] at hmem
      rw [disabledIf_core, hcore ns hns (List.mem_cons_of_mem _ hmem)]
    rw [disables, List.map_cons, List.foldl_cons, ← disables, ih (after_nodup hnames _) hrest, hfirst,
      List.map_map]
    exact List.map_congr_left fun ns _ => disabledIf_disabledIf name names ns

/-- Namespaces that are not core can be disabled, and then it is as if nothing had been called about them. -/
theorem unregistered_by_disabling (facts : HostFacts) (calls : List Call) (names : List String)
    (hcore : ∀ ns ∈ (run facts calls).namespaces, ns.name ∈ names → ns.core = false) :
    Indistinguishable (run facts (calls ++ disables names)).build
      (run facts (calls.filter (·.name ∉ names))).build := by
  have hrun : run facts (calls ++ disables names) = (disables names).foldl after (run facts calls) :=
    List.foldl_append
  have hdisabled : ∀ ns ∈ (run facts (calls ++ disables names)).namespaces,
      ns.name ∈ names → ns.enabled = false := by
    rw [hrun, after_disables (names_nodup facts calls) hcore]
    intro ns hns hmem
    obtain ⟨ns, -, rfl⟩ := List.mem_map.1 hns
    rw [disabledIf, if_pos (by simpa using hmem)]
  have hleft : (calls ++ disables names).filter (·.name ∉ names) = calls.filter (·.name ∉ names) := by
    simp +contextual [disables, Call.name]
  rw [← hleft, run_without]
  exact (sameReach_without (names_nodup facts _) hdisabled).indistinguishable

end RegistryBuilder

end Scriptorium
