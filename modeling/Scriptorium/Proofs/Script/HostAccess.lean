import Scriptorium.Proofs.Host.MemberEffects
import Scriptorium.Proofs.Script.Endings

/-!
# Access to host objects

What reading a key of a host object gives, what an assignment to it does and what a call of a method does, for
every session: which of the cases it is, the registry decides.
-/

namespace Scriptorium.Script

open Act

variable {s : Session} {p n : Nat} {name k : String} {hidden? : Option Nat} {key v : Value} {m : Member}
  {origin : Origin} {f : HostFailure} {store : Store} {w : World} {r : Except Value Value}

namespace Session

/-- `object[key]`. -/
def readAt (s : Session) (origin : Origin) (p : Nat) (key : Value) : Option (Except HostFailure Value × Session) :=
  s.performOne (Operation.index origin (.object p) key)

/-- `object[key] = v`. -/
def assignAt (s : Session) (origin : Origin) (p : Nat) (key v : Value) :
    Option (Except HostFailure Value × Session) :=
  s.performOne ((Operation.setIndex origin (.object p) key v).bind fun _ => .done .nil)

/-- `f(args)`, for its first result. -/
def callAt (s : Session) (origin : Origin) (p : Nat) (args : List Value) :
    Option (Except HostFailure Value × Session) :=
  s.performOne ((Act.invoke (.closure p) args origin).bind fun vs => .done (Operation.firstOf vs))

/-! ## Reading -/

theorem readAt_of_member (hp : s.store.objects[p]? = some (.space name hidden?))
    (h : Ends 1 (Operation.member name hidden? key) s.store s.world n r store w) (hn : n + 3 ≤ RunLimits.interval) :
    s.readAt origin p key = some (r.mapError failureOf, ⟨store, w, s.limits⟩) := by
  rw [readAt, Operation.index_object]
  refine performOne_of_ends (.read ?_) hn
  rwa [hp]

/-- The meaning of a key that is a text. -/
theorem readAt_of_reading (hp : s.store.objects[p]? = some (.space name hidden?))
    (hkey : Operation.keyText s.store "__index" key = .ok k)
    (h : Ends 1 (match HostObject.reading s.store.registry (Operation.hiddenValue s.store hidden?) name k with
      | .property m => (Act.request (.get name m)).bind fun vs => .done (Operation.firstOf vs)
      | .method m => .newClosure (.member name m)
      | .shadowed v => .done v
      | .unknown => .raise (.failure (HostObject.noMember name k))) s.store s.world n r store w)
    (hn : n + 4 ≤ RunLimits.interval) :
    s.readAt origin p key = some (r.mapError failureOf, ⟨store, w, s.limits⟩) := by
  refine readAt_of_member hp (.read ?_) hn
  rwa [hkey]

theorem readAt_refused (hp : s.store.objects[p]? = some (.space name hidden?))
    (hkey : Operation.keyText s.store "__index" key = .error f) :
    s.readAt origin p key = some (.error f, s) := by
  refine readAt_of_member (r := .error (.failure f)) (n := 2) hp (.read ?_) (by decide)
  rw [hkey]
  exact .raise _ _ _

theorem readAt_property (origin : Origin) (hp : s.store.objects[p]? = some (.space name hidden?))
    (hkey : Operation.keyText s.store "__index" key = .ok k) (hm : s.store.registry.resolve name k = some m)
    (hkind : m.kind = .property) :
    s.readAt origin p key = some (
      match HostObject.get s.world name m with
      | .ok d => (.ok (s.store.ofDatum d).1, { s with store := (s.store.ofDatum d).2 })
      | .error f => (.error f, s)) := by
  cases hget : HostObject.get s.world name m with
  | ok d =>
    have hreply : hostReply s.world (.get name m) = (.ok [d], s.world) := by
      simp only [hostReply, hget]
      rfl
    refine readAt_of_reading (r := .ok _) (n := 2) hp hkey ?_ (by decide)
    simp only [HostObject.reading, hm, hkind]
    exact (Ends.request_ok hreply).map Operation.firstOf
  | error f =>
    have hreply : hostReply s.world (.get name m) = (.error f, s.world) := by
      simp only [hostReply, hget]
      rfl
    refine readAt_of_reading (r := .error (.failure f)) (n := 2) hp hkey ?_ (by decide)
    simp only [HostObject.reading, hm, hkind]
    exact (Ends.request_error hreply).map Operation.firstOf

theorem readAt_method (hp : s.store.objects[p]? = some (.space name hidden?))
    (hkey : Operation.keyText s.store "__index" key = .ok k) (hm : s.store.registry.resolve name k = some m)
    (hkind : m.kind = .method) :
    s.readAt origin p key = some
      (.ok (s.store.newClosure (.member name m)).1, { s with store := (s.store.newClosure (.member name m)).2 }) := by
  refine readAt_of_reading (r := .ok _) (n := 1) hp hkey ?_ (by decide)
  simp only [HostObject.reading, hm, hkind]
  exact .change (.done _ _ _)

theorem readAt_hidden (hp : s.store.objects[p]? = some (.space name hidden?))
    (hkey : Operation.keyText s.store "__index" key = .ok k) (hm : s.store.registry.resolve name k = none)
    (hv : Operation.hiddenValue s.store hidden? k = some v) :
    s.readAt origin p key = some (.ok v, s) := by
  refine readAt_of_reading (r := .ok v) (n := 0) hp hkey ?_ (by decide)
  simp only [HostObject.reading, hm, hv]
  exact .done _ _ _

theorem readAt_unknown (hp : s.store.objects[p]? = some (.space name hidden?))
    (hkey : Operation.keyText s.store "__index" key = .ok k) (hm : s.store.registry.resolve name k = none)
    (hv : Operation.hiddenValue s.store hidden? k = none) :
    s.readAt origin p key = some (.error (HostObject.noMember name k), s) := by
  refine readAt_of_reading (r := .error (.failure (HostObject.noMember name k))) (n := 1) hp hkey ?_ (by decide)
  simp only [HostObject.reading, hm, hv]
  exact .raise _ _ _

/-! ## Assigning -/

theorem assignAt_of_setMember {r : Except Value Unit} (hp : s.store.objects[p]? = some (.space name hidden?))
    (h : Ends 1 (Operation.setMember name key v) s.store s.world n r store w) (hn : n + 3 ≤ RunLimits.interval) :
    s.assignAt origin p key v =
      some ((r.map fun _ => .nil).mapError failureOf, ⟨store, w, s.limits⟩) := by
  rw [assignAt, Operation.setIndex_object]
  refine performOne_of_ends (Ends.map (Ends.read ?_) fun _ => Value.nil) hn
  rwa [hp]

theorem assignAt_refused (hp : s.store.objects[p]? = some (.space name hidden?))
    (hkey : Operation.keyText s.store "__newindex" key = .error f) :
    s.assignAt origin p key v = some (.error f, s) := by
  refine assignAt_of_setMember (r := .error (.failure f)) (n := 2) hp (.read ?_) (by decide)
  rw [hkey]
  exact .raise _ _ _

theorem assignAt_unassignable (hp : s.store.objects[p]? = some (.space name hidden?))
    (hkey : Operation.keyText s.store "__newindex" key = .ok k)
    (hm : HostObject.assignable s.store.registry name k = .error f) :
    s.assignAt origin p key v = some (.error f, s) := by
  refine assignAt_of_setMember (r := .error (.failure f)) (n := 2) hp (.read ?_) (by decide)
  rw [hkey]
  dsimp only
  rw [hm]
  exact .raise _ _ _

theorem assignAt_property (origin : Origin) (v : Value) (hp : s.store.objects[p]? = some (.space name hidden?))
    (hkey : Operation.keyText s.store "__newindex" key = .ok k)
    (hm : HostObject.assignable s.store.registry name k = .ok m) :
    s.assignAt origin p key v =
      some ((HostObject.set s.world name m (s.store.datum v)).1.map fun _ => .nil,
        { s with world := (HostObject.set s.world name m (s.store.datum v)).2 }) := by
  cases hset : HostObject.set s.world name m (s.store.datum v) with
  | mk result w =>
    cases result with
    | ok _ =>
      have hreply : hostReply s.world (.set name m (s.store.datum v)) = (.ok [], w) := by
        simp only [hostReply, hset]
        rfl
      refine assignAt_of_setMember (r := .ok ()) (n := 2) hp (.read ?_) (by decide)
      simp only [hkey, hm]
      exact (Ends.request_ok hreply).map fun _ => ()
    | error f =>
      have hreply : hostReply s.world (.set name m (s.store.datum v)) = (.error f, w) := by
        simp only [hostReply, hset]
        rfl
      refine assignAt_of_setMember (r := .error (.failure f)) (n := 3) hp (.read ?_) (by decide)
      simp only [hkey, hm]
      exact (Ends.request_error hreply).map fun _ => ()

/-! ## Calling -/

/-- A call of a method is a request with the arguments as the host sees them. It ends well within an interval. -/
theorem exists_ends_invoke (origin : Origin) (args : List Value) (hp : s.store.closures[p]? = some (.member name m)) :
    ∃ n r store w, n + 10 ≤ RunLimits.interval ∧
      Ends 1 (Act.invoke (.closure p) args origin) s.store s.world n r store w ∧
      ((r.map Operation.firstOf).mapError failureOf, ({ s with store, world := w } : Session)) =
        match HostObject.call s.world name m (HostObject.withoutSelf (args.map s.store.datum)) with
        | (.ok ds, w) =>
          (.ok (Operation.firstOf (s.store.ofDatums ds).1), { s with store := (s.store.ofDatums ds).2, world := w })
        | (.error f, w) => (.error f, { s with world := w }) := by
  have hends {n : Nat} {r : Except Value (List Value)} {store : Store} {w : World}
      (h : Ends 0 (Act.request (.call name m (HostObject.withoutSelf (args.map s.store.datum)))) s.store s.world n r
        store w) : Ends 1 (Act.invoke (.closure p) args origin) s.store s.world (1 + n + 4) r store w :=
    Ends.invoke_member hp (Ends.bind (Ends.read (Ends.done _ _ _)) h)
  have hinterval : RunLimits.interval = 10000 := rfl
  cases hcall : HostObject.call s.world name m (HostObject.withoutSelf (args.map s.store.datum)) with
  | mk result w =>
    cases result with
    | ok ds =>
      have hlength : ds.length ≤ 1 := HostObject.length_call_le (congrArg Prod.fst hcall)
      exact ⟨_, _, _, _, by omega, hends (Ends.request_ok hcall), rfl⟩
    | error f => exact ⟨_, _, _, _, by omega, hends (Ends.request_error hcall), rfl⟩

theorem callAt_method (origin : Origin) (args : List Value) (hp : s.store.closures[p]? = some (.member name m)) :
    s.callAt origin p args = some (
      match HostObject.call s.world name m (HostObject.withoutSelf (args.map s.store.datum)) with
      | (.ok ds, w) =>
        (.ok (Operation.firstOf (s.store.ofDatums ds).1), { s with store := (s.store.ofDatums ds).2, world := w })
      | (.error f, w) => (.error f, { s with world := w })) := by
  obtain ⟨n, r, store, w, hn, hends, hresult⟩ := exists_ends_invoke origin args hp
  rw [← hresult]
  exact performOne_of_ends (hends.map _) (by omega)

end Session

end Scriptorium.Script
