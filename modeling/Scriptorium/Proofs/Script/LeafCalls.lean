import Scriptorium.Proofs.Script.HostAccess

/-!
# Calls of leaf services

A script that calls a method of `data`, `math` or `fs` goes on: whatever the arguments and the disk are, it gets a
value, and a failure is no more than one line in the host log (`leaf_services_fail_open`). What the script cannot be
spared is a host that breaks off, and that takes a file with a time beyond the calendar (`leaf_service_raises_iff`).
-/

namespace Scriptorium.Script.Session

open Services

variable {p : Nat}

/-- What a script gets of a leaf service is what the host gives of it. -/
theorem callAt_service {s : Session} {name : String} {m : Member} {service : Service} {call : String}
    (hp : s.store.closures[p]? = some (.member name m)) (hfind : find? name m.name = some service)
    (hname : HostObject.callName name m = call) (origin : Origin) (args : List Value) :
    s.callAt origin p args = some (
      match Leaf.suppressed call service.fallback
          (service.run (HostObject.withoutSelf (args.map s.store.datum))) s.world with
      | (.ok d, w) => (.ok (s.store.ofDatum d).1, { s with store := (s.store.ofDatum d).2, world := w })
      | (.error f, w) => (.error f, { s with world := w })) := by
  subst hname
  rw [callAt_method origin args hp, HostObject.call_service hfind]
  rcases Leaf.suppressed _ service.fallback _ s.world with ⟨d | f, w⟩ <;> rfl

/-- The one call of a leaf service that raises an error asks about a file for whose time the host has no date. -/
theorem leaf_service_raises_iff (s : Session) (ns : Namespace) (m : Member)
    (hns : ns ∈ [Registry.dataNamespace, Registry.mathNamespace, Registry.fsNamespace]) (hm : m ∈ ns.members)
    (hp : s.store.closures[p]? = some (.member ns.name m)) (origin : Origin) (args : List Value) :
    (∃ f s', s.callAt origin p args = some (.error f, s')) ↔
      ns.name = "fs" ∧ m.name = "get_file_info" ∧
        ¬ Datable s.world (HostObject.withoutSelf (args.map s.store.datum)) := by
  obtain ⟨hserved, hname⟩ := find?_standard ns hns m hm
  obtain ⟨service, hfind⟩ := Option.isSome_iff_exists.1 hserved
  rw [callAt_service hp hfind hname origin args]
  by_cases hundated : ns.name = "fs" ∧ m.name = "get_file_info" ∧
      ¬ Datable s.world (HostObject.withoutSelf (args.map s.store.datum))
  · rw [hundated.1, hundated.2.1] at hfind
    obtain rfl : ⟨.nil, fileInfo⟩ = service := Option.some.inj hfind
    rw [Leaf.suppressed_crashed (fileInfo_crashed hundated.2.2)]
    exact iff_of_true ⟨_, _, rfl⟩ hundated
  · have heffect := (run_cases hfind _ s.world).resolve_right fun hcrash => hundated hcrash.1
    obtain ⟨d, w, hrun, -⟩ := Leaf.suppressed_effect heffect m.qualifiedName service.fallback
    rw [hrun]
    refine iff_of_false ?_ hundated
    rintro ⟨f, s', hraised⟩
    cases (Prod.mk.inj (Option.some.inj hraised)).1

end Scriptorium.Script.Session
